import Viiper.Ports.FixedReportRefinement

/-!
# Leases and claims go out of date

Leases carry the producer epoch and claims carry a token.  Both counters only
grow while they do not wrap; a fault or a retirement moves the epoch past every
lease issued so far and leaves no claim behind.  So nothing issued before it is
honoured after it.
-/

namespace Viiper.Ports.FixedReportScheduler

open Verified Go Run

variable {E T : Type*} {c : Config E T} {s s' : Scheduler E T} {a : ActiveClaim T}

/-! ## Counters -/

/-- The effect of a call on the epoch, the token counter and the claim slot; a
claim found afterwards was there before, or carries the newest token. -/
structure Counters (disturbed : Bool) (s s' : Scheduler E T) : Prop where
  producer : s'.producer = if disturbed then bump s.producer else s.producer
  token : s'.nextToken = s.nextToken ∨ s'.nextToken = bump s.nextToken
  claim : ∀ a', s'.claim = some a' → (disturbed = false ∧ ∃ a, s.claim = some a ∧
      a.claimToken = a'.claimToken) ∨
    (s'.nextToken = bump s.nextToken ∧ a'.claimToken = s'.nextToken)

theorem Counters.refl (s : Scheduler E T) : Counters false s s :=
  ⟨rfl, .inl rfl, fun a ha => .inl ⟨rfl, a, ha, rfl⟩⟩

variable {evs : List (SchedulerEvent E T)} {op : Op T} {token epoch : UInt64}

theorem Counters.bookkept {disturbed : Bool} {s t : Scheduler E T} (hsame : Bookkept s t)
    (h : Counters disturbed t s') : Counters disturbed s s' := by
  obtain ⟨_, _, _, _, rfl⟩ := hsame
  exact ⟨h.producer, h.token, h.claim⟩

/-- A call which leaves the counters and only clears or keeps the claim. -/
theorem Counters.keep (hp : s'.producer = s.producer) (ht : s'.nextToken = s.nextToken)
    (hc : ∀ a', s'.claim = some a' → ∃ a, s.claim = some a ∧ a.claimToken = a'.claimToken) :
    Counters false s s' :=
  ⟨hp, .inl ht, fun a' ha' => .inl ⟨rfl, hc a' ha'⟩⟩

theorem promoteLatest_frame (s : Scheduler E T) : (promoteLatest s).producer = s.producer ∧
      (promoteLatest s).nextToken = s.nextToken ∧
      (promoteLatest s).claim = s.claim := by
  unfold promoteLatest
  split <;> exact ⟨rfl, rfl, rfl⟩

theorem acceptPublication_counters (s : Scheduler E T) (state : T) (receivedAt : Time)
    (ordered : Bool) : Counters false s (acceptPublication s state receivedAt ordered) := by
  cases ordered with
  | false => exact Counters.keep rfl rfl fun a ha => ⟨a, ha, rfl⟩
  | true =>
    have hframe := promoteLatest_frame (requireOrderedRecovery (newEntry s state receivedAt true).1)
    refine Counters.keep hframe.1 hframe.2.1 fun a ha => ?_
    obtain ⟨b, hb, -, htoken⟩ := requireOrderedRecovery_claim (hframe.2.2.symm.trans ha)
    exact ⟨b, hb, htoken⟩

theorem issueClaim_counters {disturbed : Bool} (c : Config E T)
    (source : ClaimSource) (entry : Entry T) (data : Bytes) (selectedAt : Time)
    (hp : s'.producer = if disturbed then bump s.producer else s.producer)
    (ht : s'.nextToken = s.nextToken) :
    Counters disturbed s (issueClaim c s' source entry data selectedAt).1 := by
  refine ⟨hp, .inr (congrArg bump ht), fun a ha => .inr ⟨congrArg bump ht, ?_⟩⟩
  cases ha
  rfl

theorem commitClaim_frame (s : Scheduler E T) (a : ActiveClaim T) :
    (commitClaim s a).producer = s.producer ∧ (commitClaim s a).nextToken = s.nextToken := by
  unfold commitClaim
  split <;> exact ⟨rfl, rfl⟩

theorem deferClaim_frame (s : Scheduler E T) (a : ActiveClaim T) :
    (deferClaim s a).producer = s.producer ∧ (deferClaim s a).nextToken = s.nextToken := by
  unfold deferClaim
  split
  · exact ⟨rfl, rfl⟩
  split
  · exact ⟨rfl, rfl⟩
  · split <;> exact ⟨rfl, rfl⟩

/-- Everything issued up to `epoch` and `token` is out of date. -/
structure Outdated (epoch token : UInt64) (s : Scheduler E T) : Prop where
  epoch_lt : epoch < s.producer
  token_le : token ≤ s.nextToken
  claim_lt : ∀ a, s.claim = some a → token < a.claimToken

theorem Outdated.not_matches (ho : Outdated epoch token s) {claim : Claim}
    (hle : claim.token ≤ token) (ha : s.claim = some a) : claimMatches c s a claim = false := by
  have hlt := UInt64.lt_of_le_of_lt hle (ho.claim_lt a ha)
  have hne : (claim.token == a.claimToken) = false := by
    rw [beq_eq_false_iff_ne]
    exact UInt64.ne_of_lt hlt
  simp [claimMatches, hne]

variable [Inhabited T]

/-- A selection moves neither counter and leaves the claim slot alone. -/
theorem SelectEffect.frame {r : Selection E T} (h : SelectEffect c s r) :
    match r with
    | .failed s' => s'.producer = s.producer ∧ s'.nextToken = s.nextToken ∧ s'.claim = s.claim
    | .chosen s' _ _ _ => s'.producer = s.producer ∧ s'.nextToken = s.nextToken := by
  cases h <;> simp [restoreJournal, popJournal]

theorem CallEffect.counters {r : Scheduler E T × Out T}
    {d : Option Disturbance} (h : CallEffect c s op r d) : Counters d.isSome s r.1 := by
  -- The slot is empty before a selection, faulted or not.
  have hstart : ∀ {s₁ at_ now d}, s.claim = none → StaleEffect c s at_ now s₁ d →
      s₁.claim = none ∧ s₁.nextToken = s.nextToken ∧
        s₁.producer = if d.isSome then bump s.producer else s.producer := by
    intro s₁ at_ now d hidle hstale
    cases hstale with
    | fresh => exact ⟨hidle, rfl, rfl⟩
    | faulted s' hsame =>
      obtain ⟨_, _, _, _, rfl⟩ := hsame
      exact ⟨rfl, rfl, rfl⟩
  cases h with
  | kept hsame => exact .bookkept hsame (.refl _)
  | faulted hsame | producerRetired hsame | generationRetired hsame =>
    exact .bookkept hsame ⟨rfl, .inl rfl, nofun⟩
  | continuous hsame | ordered hsame => exact .bookkept hsame (acceptPublication_counters _ _ _ _)
  | resynchronized hsame => exact .bookkept hsame (.keep rfl rfl fun a ha => ⟨a, ha, rfl⟩)
  | failed hidle hstale hselect =>
    obtain ⟨hclaim, htoken, hproducer⟩ := hstart hidle hstale
    obtain ⟨hp, ht, hc⟩ := hselect.frame
    refine ⟨hp.trans hproducer, .inl (ht.trans htoken), fun a ha => ?_⟩
    cases (hc.trans hclaim).symm.trans ha
  | issued hidle hstale hselect =>
    obtain ⟨-, htoken, hproducer⟩ := hstart hidle hstale
    obtain ⟨hp, ht⟩ := hselect.frame
    exact issueClaim_counters c _ _ _ _ (hp.trans hproducer) (ht.trans htoken)
  | @admitted _ _ _ _ a hclaim =>
    refine .keep rfl rfl ?_
    rintro _ ⟨⟩
    exact ⟨a, hclaim, rfl⟩
  | @committed _ _ _ s' a hclaim hsame =>
    have hframe := commitClaim_frame s' a
    exact .bookkept hsame (.keep hframe.1 hframe.2 nofun)
  | @deferred _ _ _ s' a hclaim hsame =>
    have hframe := deferClaim_frame s' a
    exact .bookkept hsame (.keep hframe.1 hframe.2 nofun)

/-! ## Stale capabilities -/

/-- The valid lease a call returned. -/
def leaseIssuedBy (e : SchedulerEvent E T) : Option ProducerLease :=
  match e.out with
  | .lease lease _ => if lease.valid then some lease else none
  | _ => none

/-- The valid claim a call returned. -/
def claimIssuedBy (e : SchedulerEvent E T) : Option Claim :=
  match e.out with
  | .claim claim _ => if claim.valid then some claim else none
  | _ => none

/-- Neither counter wraps in this call. -/
def Unwrapped (c : Config E T) (_ : List (SchedulerEvent E T))
    (s : Scheduler E T) (op : Op T) : Prop :=
  s.producer ≤ (step c s op).1.producer ∧ s.nextToken ≤ (step c s op).1.nextToken

instance (c : Config E T) (evs : List (SchedulerEvent E T))
    (s : Scheduler E T) (op : Op T) : Decidable (Unwrapped c evs s op) :=
  inferInstanceAs (Decidable (_ ∧ _))

/-- A lease or claim issued in `evs` is presented again. -/
inductive PresentsIssued (evs : List (SchedulerEvent E T)) : Op T → Prop
  | publish (e : SchedulerEvent E T) (he : e ∈ evs) (lease : ProducerLease)
      (hlease : leaseIssuedBy e = some lease) (state : T)
      (receivedAt now : Time) :
      PresentsIssued evs (.publishWithLease lease state receivedAt now)
  | resynchronize (e : SchedulerEvent E T) (he : e ∈ evs)
      (lease : ProducerLease) (hlease : leaseIssuedBy e = some lease)
      (state : T) (receivedAt now : Time) :
      PresentsIssued evs (.resynchronize lease state receivedAt now)
  | canAdmit (e : SchedulerEvent E T) (he : e ∈ evs) (claim : Claim)
      (hclaim : claimIssuedBy e = some claim) (admissionAt now : Time) :
      PresentsIssued evs (.canAdmit claim admissionAt now)
  | resolve (e : SchedulerEvent E T) (he : e ∈ evs) (claim : Claim)
      (hclaim : claimIssuedBy e = some claim) (outcome : Outcome)
      (completedAt now : Time) :
      PresentsIssued evs (.resolve claim outcome completedAt now)

/-- The answers which refuse a stale lease or a stale claim. -/
def Refused (out : Out T) : Prop :=
  match out with
  | .disposition d => d = .rejectedStaleProducer
  | .answer ok => ok = false
  | _ => False

/-- Every capability issued so far is bounded by the counters. -/
structure Issued (evs : List (SchedulerEvent E T)) (s : Scheduler E T) : Prop where
  lease : ∀ e ∈ evs, ∀ l, leaseIssuedBy e = some l → l.epoch ≤ s.producer
  claim : ∀ e ∈ evs, ∀ k, claimIssuedBy e = some k → k.token ≤ s.nextToken

omit [Inhabited T] in
theorem out_of_claimIssuedBy {e : SchedulerEvent E T} {claim : Claim}
    (h : claimIssuedBy e = some claim) : claim.valid ∧ ∃ data, e.out = .claim claim data := by
  unfold claimIssuedBy at h
  split at h
  next k data hk =>
      split at h
      next hvalid =>
          cases h
          exact ⟨hvalid, data, hk⟩
      · cases h
  · cases h

theorem claimIssuedBy_token {claim : Claim} (h : claimIssuedBy (event (step c) s op) = some claim) :
    claim.token = (step c s op).1.nextToken := by
  obtain ⟨hvalid, data, hk⟩ := out_of_claimIssuedBy h
  have heffect := step_effect c s op
  unfold event at hk
  generalize disturbance c s op = d at heffect
  generalize step c s op = r at heffect hk ⊢
  cases heffect with
  | kept _ hsilent => simp [hsilent.claims _ _ hk] at hvalid
  | faulted _ hout | generationRetired _ hout | continuous _ _ hout | ordered _ _ hout =>
    exact absurd hk (hout _ _)
  | failed =>
    cases hk
    cases hvalid
  | issued =>
    cases hk
    rfl
  | _ => cases hk

theorem leaseIssuedBy_epoch {lease : ProducerLease}
    (h : leaseIssuedBy (event (step c) s op) = some lease) :
    lease.epoch = (step c s op).1.producer := by
  cases op with
  | producerLease =>
    unfold leaseIssuedBy event step at h
    dsimp only at h
    split at h
    · cases h
      rfl
    · cases h
  | retireProducerLease l retiredAt now =>
    rcases retireProducerLease_cases c s l retiredAt now with heq |
      ⟨-, -, s', hsame, heq⟩
    · simp [leaseIssuedBy, event, step, heq, ProducerLease.valid] at h
    obtain ⟨_, _, _, _, rfl⟩ := hsame
    simp only [leaseIssuedBy, event, step, heq] at h ⊢
    split at h
    · cases h
      rfl
    · cases h
  | _ => cases h

/-- Issued capabilities stay bounded while the counters do not wrap. -/
theorem Issued.after (hi : Issued evs s) (hw : Unwrapped c evs s op) :
    Issued (evs ++ [event (step c) s op]) (step c s op).1 := by
  refine ⟨fun e he l hl => ?_, fun e he k hk => ?_⟩
  · rcases List.mem_append.1 he with he | he
    · exact UInt64.le_trans (hi.lease e he l hl) hw.1
    · rw [List.mem_singleton.1 he] at hl
      rw [leaseIssuedBy_epoch hl]
      exact UInt64.le_refl _
  · rcases List.mem_append.1 he with he | he
    · exact UInt64.le_trans (hi.claim e he k hk) hw.2
    rw [List.mem_singleton.1 he] at hk
    rw [claimIssuedBy_token hk]
    exact UInt64.le_refl _

theorem lt_of_bump_le {v w : UInt64} (heq : w = bump v) (hle : v ≤ w) : v < w := by
  refine UInt64.lt_of_le_of_ne hle fun h => bump_ne_self v ?_
  rw [← heq, ← h]

/-- A disturbance outdates everything issued before it. -/
theorem outdated_of_disturbance (hd : (disturbance c s op).isSome) (hw : Unwrapped c evs s op) :
    Outdated s.producer s.nextToken (step c s op).1 := by
  have hcount := (step_effect c s op).counters
  rw [hd] at hcount
  refine ⟨lt_of_bump_le hcount.producer hw.1, hw.2, fun a ha => ?_⟩
  rcases hcount.claim a ha with ⟨hfalse, -⟩ | ⟨hbump, htoken⟩
  · cases hfalse
  rw [htoken]
  exact lt_of_bump_le hbump hw.2

/-- What is out of date stays out of date. -/
theorem Outdated.after (ho : Outdated epoch token s) (hw : Unwrapped c evs s op) :
    Outdated epoch token (step c s op).1 := by
  have hcount := (step_effect c s op).counters
  refine ⟨UInt64.lt_of_lt_of_le ho.epoch_lt hw.1, UInt64.le_trans ho.token_le hw.2, fun a ha => ?_⟩
  rcases hcount.claim a ha with ⟨-, b, hb, htoken⟩ | ⟨hbump, htoken⟩
  · rw [← htoken]
    exact ho.claim_lt b hb
  · rw [htoken]
    exact UInt64.lt_of_le_of_lt ho.token_le (lt_of_bump_le hbump hw.2)

theorem Outdated.refuses (ho : Outdated epoch token s)
    (hlease : ∀ e ∈ evs, ∀ l, leaseIssuedBy e = some l → l.epoch ≤ epoch)
    (hclaim : ∀ e ∈ evs, ∀ k, claimIssuedBy e = some k → k.token ≤ token)
    (hop : PresentsIssued evs op) : Refused (step c s op).2 := by
  have hstale : ∀ l : ProducerLease, l.epoch ≤ epoch →
      (!l.valid || l.epoch != s.producer) := by
    intro l hl
    have hlt := UInt64.lt_of_le_of_lt hl ho.epoch_lt
    simp [UInt64.ne_of_lt hlt]
  cases hop with
  | publish e he lease hl state receivedAt now =>
    simp only [step, publishWithLease, publishLocked, Refused]
    rw [if_pos (hstale lease (hlease e he lease hl))]
  | resynchronize e he lease hl state receivedAt now =>
    simp only [step, FixedReportScheduler.resynchronize, Refused]
    rw [if_pos (hstale lease (hlease e he lease hl))]
  | canAdmit e he claim hk admissionAt now =>
    simp only [step, canAdmitInputPresentation, Refused]
    cases ha : s.claim with
    | none => rfl
    | some a => simp [ho.not_matches (hclaim e he claim hk) ha]
  | resolve e he claim hk outcome completedAt now =>
    simp only [step, resolveInputPresentation, Refused]
    cases ha : s.claim with
    | none => rfl
    | some a => simp [ho.not_matches (hclaim e he claim hk) ha]

end Viiper.Ports.FixedReportScheduler
