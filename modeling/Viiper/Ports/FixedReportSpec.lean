import Viiper.Ports.FixedReportScheduler

/-!
# What each scheduler call can do

One inversion lemma per method of the fixed-report scheduler, and `step_effect` for a
call of any of them.  Later files take a call apart with these lemmas and never unfold
the method again.
-/

namespace Viiper.Ports.FixedReportScheduler

open Verified Go Run

variable {E T : Type*} {s' : Scheduler E T}

/-! ## Bookkeeping -/

/-- `s'` differs from `s` at most in counters and the producer's clock. -/
def Bookkept (s s' : Scheduler E T) : Prop :=
  ∃ lastProducerAt invalidTimestamps rejected overflows, s' = { s with
      lastProducerAt := lastProducerAt
      invalidTimestamps := invalidTimestamps
      rejected := rejected
      overflows := overflows }

theorem Bookkept.refl (s : Scheduler E T) : Bookkept s s :=
  ⟨_, _, _, _, rfl⟩

variable (c : Config E T) {s : Scheduler E T}

theorem Bookkept.reject (h : Bookkept s s') : Bookkept s (reject s') := by
  obtain ⟨a, i, r, o, rfl⟩ := h
  exact ⟨_, _, _, _, rfl⟩

theorem Bookkept.claim_eq (h : Bookkept s s') : s'.claim = s.claim := by
  obtain ⟨_, _, _, _, rfl⟩ := h
  rfl

/-- Counting an invalid timestamp of the claim in flight. -/
theorem Bookkept.counted {claim : Option (ActiveClaim T)} (hclaim : s.claim = claim) (count : Nat) :
    Bookkept s { s with claim := claim, invalidTimestamps := count } := by
  subst hclaim
  exact ⟨_, _, _, _, rfl⟩

theorem observeProducerTimestamp_bookkept (s : Scheduler E T) (receivedAt : Time) :
    Bookkept s (observeProducerTimestamp c s receivedAt).1 := by
  unfold observeProducerTimestamp
  split
  · exact Bookkept.refl s
  · split <;> exact ⟨_, _, _, _, rfl⟩

/-- The lease is the current one and neither half of a fence is pending. -/
structure Publishable (s : Scheduler E T) (lease : ProducerLease) : Prop where
  valid : lease.valid
  current : lease.epoch = s.producer
  neutral : s.mandatoryNeutral = none
  synchronized : s.resynchronizationNeeded = false

theorem latest_toList_length (s : Scheduler E T) :
    s.latest.toList.length + 1 = if s.latest.isSome then 2 else 1 := by
  cases s.latest <;> rfl

/-- The check asks for a fault only with an age limit and producer work. -/
theorem pendingPresentationFaultRequired_cases (s : Scheduler E T) (selectedAt : Time) :
    pendingPresentationFaultRequired c s selectedAt = (s, false) ∨
      (s.mandatoryNeutral = none ∧ 0 < c.maximumOrderedAge ∧
        nextProducerEntry s ≠ none ∧ ∃ s', Bookkept s s' ∧
          pendingPresentationFaultRequired c s selectedAt = (s', true)) := by
  unfold pendingPresentationFaultRequired
  by_cases hoff : c.maximumOrderedAge ≤ 0 ∨ s.mandatoryNeutral.isSome
  · rw [if_pos hoff]
    exact .inl rfl
  rw [if_neg hoff]
  have hage : 0 < c.maximumOrderedAge := lt_of_not_ge fun h => hoff (.inl h)
  have hneutral : s.mandatoryNeutral = none := by
    simpa using fun h => hoff (.inr h)
  cases hnext : nextProducerEntry s with
  | none => exact .inl rfl
  | some x =>
    obtain ⟨entry, dependency⟩ := x
    dsimp only
    split
    · exact .inr ⟨hneutral, hage, nofun, _, ⟨_, _, _, _, rfl⟩, rfl⟩
    · cases dependency &&
          decide (selectedAt - entry.receivedAt ≥ c.maximumOrderedAge) with
      | false => exact .inl rfl
      | true => exact .inr ⟨hneutral, hage, nofun, s, Bookkept.refl s, rfl⟩

theorem not_stale {lease : ProducerLease} (h : ¬(!lease.valid || lease.epoch != s.producer)) :
    lease.valid ∧ lease.epoch = s.producer := by
  cases hv : lease.valid with
  | false => simp [hv] at h
  | true => simpa [hv] using h

variable [Inhabited T]

theorem retireProducerLease_cases (s : Scheduler E T) (lease : ProducerLease)
    (retiredAt now : Time) :
    retireProducerLease c s lease retiredAt now = (s, ⟨0⟩, false) ∨
      (lease.valid ∧ lease.epoch = s.producer ∧
        ∃ s', Bookkept s s' ∧ retireProducerLease c s lease retiredAt now =
          (purgeHistory c s' (orNow retiredAt now), ⟨bump s.producer⟩, true)) := by
  unfold retireProducerLease
  split
  next hcurrent =>
    rw [Bool.and_eq_true, beq_iff_eq] at hcurrent
    exact .inr ⟨hcurrent.1, hcurrent.2, _, ⟨_, _, _, _, rfl⟩, rfl⟩
  · exact .inl rfl

/-! ## Selection -/

/-- What the selection switch can choose.  Every failing case restores the slot
it took from, except for what the encoder wrote through its pointer. -/
inductive SelectEffect (c : Config E T) (s : Scheduler E T) : Selection E T → Prop
  | neutralRepeated (neutral : MandatoryNeutral T) (data : Bytes)
      (hneutral : s.mandatoryNeutral = some neutral)
      (hdata : neutral.data = some data) :
      SelectEffect c s (.chosen s .mandatoryNeutral neutral.entry data)
  | neutralFailed (neutral : MandatoryNeutral T) (encoder : E)
      (hneutral : s.mandatoryNeutral = some neutral)
      (hdata : neutral.data = none) :
      SelectEffect c s (.failed { s with encoder := encoder })
  | neutralEncoded (neutral : MandatoryNeutral T) (encoder : E) (state : T)
      (data : Bytes) (hneutral : s.mandatoryNeutral = some neutral)
      (hdata : neutral.data = none)
      (hencode : data = (c.encode s.encoder neutral.entry.state).data) :
      SelectEffect c s (.chosen
        { s with
          encoder := encoder
          mandatoryNeutral := some { neutral with data := some data } }
        .mandatoryNeutral { neutral.entry with state := state } data)
  | retry (retry : Retry T) (hneutral : s.mandatoryNeutral = none) (hretry : s.retry = some retry) :
      SelectEffect c s (.chosen { s with retry := none } .retry retry.entry retry.data)
  | journalFailed (encoder : E) (state : T)
      (hneutral : s.mandatoryNeutral = none) (hretry : s.retry = none)
      (hjournal : 0 < s.journal.count) :
      SelectEffect c s (.failed (restoreJournal { popJournal s with encoder := encoder }
        { s.journal.front with state := state }))
  | journal (encoder : E) (state : T) (data : Bytes)
      (hneutral : s.mandatoryNeutral = none) (hretry : s.retry = none)
      (hjournal : 0 < s.journal.count) :
      SelectEffect c s (.chosen { popJournal s with encoder := encoder } .journal
        { s.journal.front with state := state } data)
  | latestFailed (latest : Entry T) (encoder : E) (state : T)
      (hneutral : s.mandatoryNeutral = none) (hretry : s.retry = none)
      (hjournal : s.journal.count = 0) (hlatest : s.latest = some latest) :
      SelectEffect c s (.failed
        { s with
          encoder := encoder
          latest := some { latest with state := state } })
  | latest (latest : Entry T) (encoder : E) (state : T) (data : Bytes)
      (hneutral : s.mandatoryNeutral = none) (hretry : s.retry = none)
      (hjournal : s.journal.count = 0) (hlatest : s.latest = some latest) :
      SelectEffect c s (.chosen { s with latest := none, encoder := encoder }
        .latest { latest with state := state } data)
  | idle (hneutral : s.mandatoryNeutral = none) (hretry : s.retry = none)
      (hjournal : s.journal.count = 0) (hlatest : s.latest = none) :
      SelectEffect c s (.chosen s .idle { s.last with ordered := false } s.lastData)

/-- **What a selection can do.** -/
theorem selectInputPresentation_effect (s : Scheduler E T) :
    SelectEffect c s (selectInputPresentation c s) := by
  unfold selectInputPresentation
  split
  next neutral hneutral =>
      unfold selectMandatoryNeutral
      split
      · next data hdata => exact .neutralRepeated neutral data hneutral hdata
      next hdata =>
          dsimp only [encodeClaim]
          by_cases hsize : (c.encode s.encoder neutral.entry.state).size ≠ c.reportSize
          · rw [if_pos hsize]
            exact .neutralFailed neutral _ hneutral hdata
          · rw [if_neg hsize]
            exact .neutralEncoded neutral _ _ _ hneutral hdata rfl
  next hneutral =>
      split
      · next retry hretry => exact .retry retry hneutral hretry
      next hretry =>
          by_cases hjournal : 0 < s.journal.count
          · rw [if_pos hjournal]
            unfold encodeClaim
            dsimp only
            split
            · exact .journalFailed _ _ hneutral hretry hjournal
            · exact .journal _ _ _ hneutral hretry hjournal
          · rw [if_neg hjournal]
            have hempty : s.journal.count = 0 := by omega
            split
            next latest hlatest =>
                unfold encodeClaim
                dsimp only
                split
                · exact .latestFailed latest _ _ hneutral hretry hempty hlatest
                · exact .latest latest _ _ _ hneutral hretry hempty hlatest
            · next hlatest => exact .idle hneutral hretry hempty hlatest

/-- The selection-time check: nothing, or a stale-history fault. -/
inductive StaleEffect (c : Config E T) (s : Scheduler E T)
    (selectedAt now : Time) : Scheduler E T → Option Disturbance → Prop
  | fresh : StaleEffect c s selectedAt now s none
  | faulted (s' : Scheduler E T) (hsame : Bookkept s s')
      (hneutral : s.mandatoryNeutral = none) (hage : 0 < c.maximumOrderedAge)
      (hpending : nextProducerEntry s ≠ none) :
      StaleEffect c s selectedAt now (enterHistoryFault c s' .orderedAge selectedAt now)
        (some (.fault (orNow selectedAt now)))

theorem faultStalePresentation_effect (s : Scheduler E T) (selectedAt now : Time) :
    StaleEffect c s selectedAt now (faultStalePresentation c s selectedAt now)
      (if (pendingPresentationFaultRequired c s selectedAt).2 then
        some (.fault (orNow selectedAt now)) else none) := by
  unfold faultStalePresentation
  rcases pendingPresentationFaultRequired_cases c s selectedAt with heq |
    ⟨hneutral, hage, hpending, s', hsame, heq⟩
  · simp only [heq]
    exact .fresh
  · simp only [heq]
    exact .faulted s' hsame hneutral hage hpending

/-! ## Any call -/

/-- The disposition of a publication or resynchronization. -/
def publicationDisposition (c : Config E T) (s : Scheduler E T) : Op T → Option PublishDisposition
  | .publish state receivedAt now =>
    some (publishLocked c s ⟨s.producer⟩ state (orNow receivedAt now) now).2
  | .publishWithLease lease state receivedAt now =>
    some (publishWithLease c s lease state receivedAt now).2
  | .resynchronize lease state receivedAt now =>
    some (resynchronize c s lease state receivedAt now).2
  | _ => none

/-- A scheduler call with its outcome. -/
abbrev SchedulerEvent (E T : Type*) := Event (Scheduler E T) (Op T) (Out T)

/-- The answer is no claim. -/
def Out.Plain (out : Out T) : Prop := ∀ claim data, out ≠ .claim claim data

/-- The call shows nothing: no accepted publication, no claim and no resolution. -/
structure Silent (c : Config E T) (s : Scheduler E T) (op : Op T) (out : Out T) : Prop where
  publishes : ∀ d, publicationDisposition c s op = some d → d.accepted = false
  claims : ∀ claim data, out = .claim claim data → claim.valid = false
  resolves : ∀ claim outcome completedAt now,
    op = .resolve claim outcome completedAt now → out = .answer false

/-- What a call can do, and the disturbance it causes. -/
inductive CallEffect (c : Config E T) (s : Scheduler E T) :
    Op T → Scheduler E T × Out T → Option Disturbance → Prop
  | kept {op out s'} (hsame : Bookkept s s') (hsilent : Silent c s op out) :
      CallEffect c s op (s', out) none
  | faulted {op out s' reason at_ now} (hsame : Bookkept s s') (hout : out.Plain)
      (hcause : (∃ lease, Publishable s lease) ∨
        ∃ a, s.claim = some a ∧ claimOrderedAgeExceeded c a at_) :
      CallEffect c s op (enterHistoryFault c s' reason at_ now, out) (some (.fault (orNow at_ now)))
  | producerRetired {lease retiredAt now s'} (hsame : Bookkept s s') :
      CallEffect c s (.retireProducerLease lease retiredAt now)
        (purgeHistory c s' (orNow retiredAt now), .lease ⟨bump s.producer⟩ true)
        (some (.producerRetired (orNow retiredAt now)))
  | generationRetired {op out s' current at_ now} (hsame : Bookkept s s') (hout : out.Plain)
      (hd : publicationDisposition c s op = none) :
      CallEffect c s op (retireCurrentGenerationWithBaseline c s' current at_ now, out)
        (some .generationRetired)
  | continuous {op out s' lease state receivedAt} (hsame : Bookkept s s')
      (hopen : Publishable s lease) (hout : out.Plain)
      (hd : publicationDisposition c s op = some .acceptedContinuous) :
      CallEffect c s op (acceptPublication s' state receivedAt false, out) none
  | ordered {op out s' lease state receivedAt} (hsame : Bookkept s s')
      (hopen : Publishable s lease) (hout : out.Plain)
      (hd : publicationDisposition c s op = some .acceptedOrdered)
      (hroom : s'.journal.count + s'.latest.toList.length < fixedReportTransitionCapacity) :
      CallEffect c s op (acceptPublication s' state receivedAt true, out) none
  | resynchronized {lease state receivedAt now s'} (hsame : Bookkept s s')
      (hneutral : s.mandatoryNeutral = none) (hneeded : s.resynchronizationNeeded)
      (htime : s.minimumResynchronizationAt ≤ orNow receivedAt now)
      (hd : publicationDisposition c s (.resynchronize lease state receivedAt now) =
        some .acceptedResynchronization) :
      CallEffect c s (.resynchronize lease state receivedAt now)
        ({ (newEntry s' state (orNow receivedAt now) false).1 with
            latest := some (newEntry s' state (orNow receivedAt now) false).2
            previous := some state
            resynchronizationNeeded := false
            minimumResynchronizationAt := 0
            received := s'.received + 1
            resyncs := s'.resyncs + 1 },
          .disposition .acceptedResynchronization) none
  | failed {capacity selectedAt now s₁ s' d} (hidle : s.claim = none)
      (hstale : StaleEffect c s (orNow selectedAt now) now s₁ d)
      (hselect : SelectEffect c s₁ (.failed s')) :
      CallEffect c s (.claim capacity selectedAt now) (s', .claim .zero []) d
  | issued {capacity selectedAt now s₁ s' d source entry data} (hidle : s.claim = none)
      (hstale : StaleEffect c s (orNow selectedAt now) now s₁ d)
      (hselect : SelectEffect c s₁ (.chosen s' source entry data)) :
      CallEffect c s (.claim capacity selectedAt now)
        ((issueClaim c s' source entry data (orNow selectedAt now)).1,
          .claim (issueClaim c s' source entry data (orNow selectedAt now)).2.1 data) d
  | admitted {claim admissionAt now at_ a} (hclaim : s.claim = some a) :
      CallEffect c s (.canAdmit claim admissionAt now)
        ({ s with claim := some (a.validate at_) }, .answer true) none
  | committed {claim completedAt now s' a} (hclaim : s.claim = some a) (hsame : Bookkept s s') :
      CallEffect c s (.resolve claim .commit completedAt now)
        (clearClaim (commitClaim s' a), .answer true) none
  | deferred {claim completedAt now s' a} (hclaim : s.claim = some a) (hsame : Bookkept s s')
      (hmatch : claimMatches c s a claim) :
      CallEffect c s (.resolve claim .defer completedAt now)
        (clearClaim (deferClaim s' a), .answer true) none

variable {op : Op T} {out : Out T}

/-- A call which publishes, claims and resolves nothing. -/
theorem CallEffect.other (hsame : Bookkept s s')
    (hd : publicationDisposition c s op = none) (hout : out.Plain)
    (hop : ∀ claim outcome completedAt now, op = .resolve claim outcome completedAt now →
      out = .answer false) : CallEffect c s op (s', out) none :=
  .kept hsame ⟨fun _ h => by simp [hd] at h, fun _ _ h => absurd h (hout _ _), hop⟩

/-- A publication or resynchronization which is not accepted. -/
theorem CallEffect.rejected {d : PublishDisposition} (hsame : Bookkept s s')
    (hd : publicationDisposition c s op = some d) (hfalse : d.accepted = false)
    (hout : out.Plain) : CallEffect c s op (s', out) none := by
  refine .kept hsame ⟨fun _ h => ?_, fun _ _ h => absurd h (hout _ _), ?_⟩
  · cases hd.symm.trans h
    exact hfalse
  · rintro _ _ _ _ rfl
    cases hd

theorem publish_effect (lease : ProducerLease) (state : T) (receivedAt now : Time)
    (hd : publicationDisposition c s op = some (publishLocked c s lease state receivedAt now).2)
    (hout : out.Plain) :
    CallEffect c s op ((publishLocked c s lease state receivedAt now).1, out)
      (publishDisturbance c s lease state receivedAt now) := by
  have hsame := observeProducerTimestamp_bookkept c s receivedAt
  unfold publishDisturbance
  generalize hr : publishLocked c s lease state receivedAt now = r at hd ⊢
  unfold publishLocked at hr
  split at hr
  · subst hr
    exact .rejected c (Bookkept.refl s).reject hd rfl hout
  rename_i hlease
  split at hr
  · subst hr
    exact .rejected c (Bookkept.refl s).reject hd rfl hout
  rename_i hneutral
  split at hr
  · subst hr
    exact .rejected c (Bookkept.refl s).reject hd rfl hout
  rename_i hresync
  have hopen : Publishable s lease := by
    obtain ⟨hvalid, hcurrent⟩ := not_stale hlease
    exact ⟨hvalid, hcurrent, by simpa using hneutral, by simpa using hresync⟩
  rcases hobs : observeProducerTimestamp c s receivedAt with ⟨s', ok⟩
  rw [hobs] at hsame hr
  cases ok with
  | false =>
    subst hr
    exact .rejected c hsame.reject hd rfl hout
  | true =>
    dsimp only at hsame hr
    cases hordered : orderedBoundary c s' state with
    | false =>
      simp only [hordered, Bool.false_eq_true, false_and, if_false] at hr
      subst hr
      exact .continuous hsame hopen hout hd
    | true =>
      simp only [hordered, Bool.true_and, true_and, if_true, ← latest_toList_length s'] at hr
      split at hr
      · split at hr
        · subst hr
          exact .faulted hsame.reject hout (.inl ⟨lease, hopen⟩)
        · subst hr
          obtain ⟨_, _, _, _, rfl⟩ := hsame
          exact .rejected c ⟨_, _, _, _, rfl⟩ hd rfl hout
      · subst hr
        exact .ordered hsame hopen hout hd (by omega)

theorem resynchronize_effect (lease : ProducerLease) (state : T) (receivedAt now : Time) :
    CallEffect c s (.resynchronize lease state receivedAt now)
      (step c s (.resynchronize lease state receivedAt now)) none := by
  have hsame := observeProducerTimestamp_bookkept c s (orNow receivedAt now)
  have hd : publicationDisposition c s (.resynchronize lease state receivedAt now) =
    some (resynchronize c s lease state receivedAt now).2 := rfl
  unfold step
  dsimp only
  generalize hr : resynchronize c s lease state receivedAt now = r at hd ⊢
  unfold resynchronize at hr
  split at hr
  · subst hr
    exact .rejected c (Bookkept.refl s).reject hd rfl nofun
  split at hr
  · subst hr
    exact .rejected c (Bookkept.refl s).reject hd rfl nofun
  rename_i hneutral
  split at hr
  · subst hr
    exact .rejected c (Bookkept.refl s).reject hd rfl nofun
  rename_i hneeded
  dsimp only at hr
  split at hr
  · subst hr
    exact .rejected c ⟨_, _, _, _, rfl⟩ hd rfl nofun
  rename_i htime
  rcases hobs : observeProducerTimestamp c s (orNow receivedAt now) with ⟨s', ok⟩
  rw [hobs] at hsame hr
  subst hr
  cases ok with
  | false => exact .rejected c hsame.reject hd rfl nofun
  | true =>
    exact .resynchronized hsame (by simpa using hneutral) (by simpa using hneeded)
      (Int.not_lt.1 htime) hd

theorem claim_effect (capacity : Nat) (selectedAt now : Time) :
    CallEffect c s (.claim capacity selectedAt now) (step c s (.claim capacity selectedAt now))
      (claimDisturbance c s capacity (orNow selectedAt now) now) := by
  have hstale := faultStalePresentation_effect c s (orNow selectedAt now) now
  have hselect := selectInputPresentation_effect c
    (faultStalePresentation c s (orNow selectedAt now) now)
  unfold step
  dsimp only
  unfold claimInputPresentation claimDisturbance
  by_cases hbusy : capacity < c.reportSize ∨ s.claim.isSome
  · rw [if_pos hbusy, if_pos hbusy]
    exact .kept (.refl s) ⟨nofun, by rintro _ _ ⟨⟩; rfl, nofun⟩
  rw [if_neg hbusy, if_neg hbusy]
  have hidle : s.claim = none := by
    simpa using fun h => hbusy (.inr h)
  dsimp only
  split
  next s' hs =>
      rw [hs] at hselect
      exact .failed hidle hstale hselect
  next s' source entry data hs =>
      rw [hs] at hselect
      exact .issued hidle hstale hselect

theorem canAdmit_effect (claim : Claim) (admissionAt now : Time) :
    CallEffect c s (.canAdmit claim admissionAt now) (step c s (.canAdmit claim admissionAt now))
      (admitDisturbance c s claim (orNow admissionAt now) now) := by
  unfold step
  dsimp only
  unfold canAdmitInputPresentation admitDisturbance
  cases hclaim : s.claim with
  | none => exact .other c (.refl s) rfl nofun nofun
  | some a =>
    dsimp only
    by_cases hbad : (!claimMatches c s a claim || a.claimAdmissionValidated)
    · rw [if_pos hbad, if_pos hbad]
      exact .other c (.refl s) rfl nofun nofun
    rw [if_neg hbad, if_neg hbad]
    by_cases hearly : orNow admissionAt now < a.claimSelectedAt
    · rw [if_pos hearly, if_pos hearly]
      exact .other c (.counted hclaim _) rfl nofun nofun
    rw [if_neg hearly, if_neg hearly]
    split
    next hstale => exact .faulted (.refl s) nofun (.inr ⟨a, hclaim, hstale⟩)
    · exact .admitted hclaim

theorem resolve_effect (claim : Claim) (outcome : Outcome) (completedAt now : Time) :
    CallEffect c s (.resolve claim outcome completedAt now)
      (step c s (.resolve claim outcome completedAt now))
      (resolveDisturbance c s claim outcome (orNow completedAt now) now) := by
  have hrejected : CallEffect c s (.resolve claim outcome completedAt now)
      (s, .answer false) none := .other c (.refl s) rfl nofun fun _ _ _ _ _ => rfl
  unfold step
  dsimp only
  unfold resolveInputPresentation resolveDisturbance
  cases hclaim : s.claim with
  | none => exact hrejected
  | some a =>
    dsimp only
    by_cases hbad : (!outcome.valid || !claimMatches c s a claim)
    · rw [if_pos hbad, if_pos hbad]
      exact hrejected
    rw [if_neg hbad, if_neg hbad]
    simp only [Bool.or_eq_true, Bool.not_eq_true', not_or, Bool.not_eq_false] at hbad
    obtain ⟨hvalid, hmatch⟩ := hbad
    by_cases hunadmitted : outcome = .commit ∧ c.maximumOrderedAge > 0 ∧
        a.claimAdmissionValidated = false
    · rw [if_pos hunadmitted, if_pos hunadmitted]
      exact hrejected
    rw [if_neg hunadmitted, if_neg hunadmitted]
    simp only [decide_eq_true_eq]
    generalize hat : (if orNow completedAt now < minimumCompletedAt a then
      minimumCompletedAt a else orNow completedAt now) = at_
    split
    next hstale => exact .faulted (.counted hclaim _) nofun (.inr ⟨a, hclaim, hstale.2⟩)
    · cases outcome with
      | commit => exact .committed hclaim (.counted hclaim _)
      | defer => exact .deferred hclaim (.counted hclaim _) hmatch
      | retire => exact .generationRetired (.counted hclaim _) nofun rfl
      | undefined => exact absurd hvalid (by decide)

/-- **What a call can do.** -/
theorem step_effect (s : Scheduler E T) (op : Op T) :
    CallEffect c s op (step c s op) (disturbance c s op) := by
  cases op with
  | publish | publishWithLease => exact publish_effect c _ _ _ _ rfl nofun
  | producerLease => exact .other c (.refl s) rfl nofun nofun
  | retireProducerLease lease retiredAt now =>
    rcases retireProducerLease_cases c s lease retiredAt now with heq | ⟨-, -, s', hsame, heq⟩ <;>
      simp only [disturbance, step, heq]
    · exact .other c (.refl s) rfl nofun nofun
    · exact .producerRetired hsame
  | resynchronize => exact resynchronize_effect c _ _ _ _
  | claim => exact claim_effect c _ _ _
  | canAdmit => exact canAdmit_effect c _ _ _
  | resolve => exact resolve_effect c _ _ _ _
  | retireGeneration generation retiredAt now =>
    unfold disturbance step retireInputPresentationGenerationWithCurrentState
    by_cases hstale : generation = 0 ∨ generation ≠ s.generation <;>
      simp only [hstale, if_true, if_false]
    · exact .other c (.refl s) rfl nofun nofun
    · exact .generationRetired ⟨_, _, _, _, rfl⟩ nofun rfl
  | retireGenerationWithBaseline generation baseline retiredAt now =>
    unfold disturbance step retireInputPresentationGenerationWithBaseline
    by_cases hstale : generation = 0 ∨ generation ≠ s.generation <;>
      simp only [hstale, if_true, if_false]
    · exact .other c (.refl s) rfl nofun nofun
    · exact .generationRetired (.refl s) nofun rfl

end Viiper.Ports.FixedReportScheduler
