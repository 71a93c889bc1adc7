import Mathlib.Data.List.Induction
import Mathlib.Tactic.NormNum
import Viiper.Ports.FeedbackMailbox

/-!
# The release obligation of the feedback mailbox

A consumer which has applied an actuating frame must be told to release it once the mailbox
holds nothing fresh.  Two watermarks carry the obligation: the revisions last applied and
last released.  As long as the revision counter has not come round,
`released ≤ applied ≤ in flight ≤ latest` holds, and an applied frame leaves the released
watermark behind the latest revision.

Revisions are only compared for equality, so when the 64-bit counter wraps onto the
released watermark the obligation is silently dropped.
-/

namespace Viiper.Ports.Feedback

open Verified Go Run List

namespace Channel

/-! ## What each method does -/

/-- `Publish` refuses, or replaces the snapshot under the next revision. -/
inductive PublishEffect (mailbox : Mailbox) (frame : Frame) : Mailbox × Bool → Prop
  | refused : PublishEffect mailbox frame (mailbox, false)
  | accepted : PublishEffect mailbox frame (⟨some frame, bump mailbox.revision⟩, true)

theorem publish_effect (mailbox : Mailbox) (frame : Frame) :
    PublishEffect mailbox frame (mailbox.publish frame) := by
  unfold Mailbox.publish
  split
  · exact .refused
  split
  · split
    · exact .refused
    · exact .accepted
  · exact .accepted

/-- `Claim` issues nothing, or one claim of the current revision. -/
inductive ClaimEffect (mailbox : Mailbox) (now : UInt64) (cursor : ClaimCursor) :
    ClaimCursor × (Frame × ClaimDisposition × UInt64) → Prop
  | refused (hwhy : ∀ latest, mailbox.latest = some latest →
        cursor.inFlightToken = 0 → latest.freshAt now = false →
        cursor.releasedRevision = mailbox.revision) :
      ClaimEffect mailbox now cursor ({ cursor with bound := true }, ({}, .none, 0))
  | frame (latest : Frame) (hlatest : mailbox.latest = some latest)
      (hfree : cursor.inFlightToken = 0)
      (happlied : cursor.appliedRevision ≠ mailbox.revision)
      (hfresh : latest.freshAt now) :
      ClaimEffect mailbox now cursor
        (({ cursor with bound := true }.beginClaim mailbox.revision .frame
          (latest.command == commandStop)).1,
          (latest, .frame, bump cursor.nextToken))
  | release (hfree : cursor.inFlightToken = 0)
      (hreleased : cursor.releasedRevision ≠ mailbox.revision) :
      ClaimEffect mailbox now cursor
        (({ cursor with bound := true }.beginClaim mailbox.revision .release
          true).1, ({}, .release, bump cursor.nextToken))

theorem claim_effect (mailbox : Mailbox) (now : UInt64) (cursor : ClaimCursor) :
    ClaimEffect mailbox now cursor (mailbox.claim now cursor) := by
  unfold Mailbox.claim
  dsimp only
  split
  next hnone => exact .refused fun latest h => by rw [hnone] at h; cases h
  next latest hlatest =>
    split
    next hbusy => exact .refused fun _ _ hfree => absurd hfree hbusy
    next hfree =>
      rw [not_not] at hfree
      split
      next hfresh =>
        split
        · refine .refused fun other h _ hstale => ?_
          cases hlatest.symm.trans h
          cases hfresh.symm.trans hstale
        · rename_i happlied
          exact .frame latest hlatest hfree happlied hfresh
      · split
        next hreleased => exact .refused fun _ _ _ _ => hreleased
        next hreleased => exact .release hfree hreleased

/-- `Complete` refuses, or resolves the claim in flight. -/
inductive CompleteEffect (cursor : ClaimCursor) (token : UInt64)
    (delivered : Bool) : ClaimCursor × Bool → Prop
  | refused : CompleteEffect cursor token delivered (cursor, false)
  | failed (hheld : cursor.inFlightToken = token) (hdelivered : delivered = false) :
      CompleteEffect cursor token delivered ({ cursor with
            inFlightToken := 0
            inFlightRevision := 0
            inFlightDisposition := .none
            inFlightCompletesRelease := false }, true)
  | delivered (hheld : cursor.inFlightToken = token) (htoken : token ≠ 0)
      (hdelivered : delivered) :
      CompleteEffect cursor token delivered ({ cursor with
            appliedRevision := cursor.inFlightRevision
            releasedRevision :=
              if cursor.inFlightCompletesRelease then cursor.inFlightRevision
              else cursor.releasedRevision
            inFlightToken := 0
            inFlightRevision := 0
            inFlightDisposition := .none
            inFlightCompletesRelease := false }, true)

theorem complete_effect (cursor : ClaimCursor) (token : UInt64) (delivered : Bool) :
    CompleteEffect cursor token delivered (cursor.complete token delivered) := by
  unfold ClaimCursor.complete
  split
  · exact .refused
  rename_i hheld
  rw [Bool.not_eq_false] at hheld
  simp only [ClaimCursor.holds, Bool.and_eq_true, bne_iff_ne, beq_iff_eq] at hheld
  cases delivered with
  | false => exact .failed hheld.1.2 rfl
  | true => exact .delivered hheld.1.2 hheld.1.1.1 rfl

theorem step_claim (channel : Channel) (now : UInt64) :
    ∃ r, ClaimEffect channel.mailbox now channel.cursor r ∧ step channel (.claim now) =
      ({ channel with cursor := r.1 }, .claimed r.2.1 r.2.2.1 r.2.2.2) :=
  ⟨_, claim_effect .., rfl⟩

theorem step_complete (channel : Channel) (token : UInt64) (delivered : Bool) :
    ∃ r, CompleteEffect channel.cursor token delivered r ∧
      step channel (.complete token delivered) = ({ channel with cursor := r.1 }, .answer r.2) :=
  ⟨_, complete_effect .., rfl⟩

/-- What a step may do to the two counters, the two watermarks and the claim in
flight. -/
inductive Turn (e : ChannelEvent) : Prop
  | idle (hpublishes : publishes e = false) (hissues : tokenIssuedBy e = none)
      (hdelivers : delivers e = false)
      (hmailbox : e.post.mailbox = e.pre.mailbox)
      (hcursor : ∃ bound, e.post.cursor = { e.pre.cursor with bound := bound })
  | freed (hpublishes : publishes e = false) (hissues : tokenIssuedBy e = none)
      (hdelivers : delivers e = false)
      (hmailbox : e.post.mailbox = e.pre.mailbox)
      (hcursor : e.post.cursor =
        { e.pre.cursor with
          inFlightToken := 0
          inFlightRevision := 0
          inFlightDisposition := .none
          inFlightCompletesRelease := false })
  | published (hpublishes : publishes e)
      (hissues : tokenIssuedBy e = none) (hdelivers : delivers e = false)
      (hrevision : e.post.mailbox.revision = bump e.pre.mailbox.revision)
      (hcursor : e.post.cursor = e.pre.cursor)
  | issued (disposition : ClaimDisposition) (completesRelease : Bool)
      (hpublishes : publishes e = false)
      (hissues : tokenIssuedBy e = some (bump e.pre.cursor.nextToken))
      (hdelivers : delivers e = false)
      (hfree : e.pre.cursor.inFlightToken = 0)
      (hopen : e.pre.cursor.appliedRevision ≠ e.pre.mailbox.revision ∨
        e.pre.cursor.releasedRevision ≠ e.pre.mailbox.revision)
      (hmailbox : e.post.mailbox = e.pre.mailbox)
      (hcursor : e.post.cursor = ({ e.pre.cursor with bound := true }.beginClaim
        e.pre.mailbox.revision disposition completesRelease).1)
  | delivered (hpublishes : publishes e = false)
      (hissues : tokenIssuedBy e = none) (hdelivers : delivers e)
      (hheld : e.pre.cursor.inFlightToken ≠ 0)
      (hmailbox : e.post.mailbox = e.pre.mailbox)
      (hcursor : e.post.cursor =
        { e.pre.cursor with
          appliedRevision := e.pre.cursor.inFlightRevision
          releasedRevision :=
            if e.pre.cursor.inFlightCompletesRelease then
              e.pre.cursor.inFlightRevision
            else e.pre.cursor.releasedRevision
          inFlightToken := 0
          inFlightRevision := 0
          inFlightDisposition := .none
          inFlightCompletesRelease := false })

theorem turn (channel : Channel) (op : Op) : Turn (event step channel op) := by
  cases op with
  | publish frame =>
    have heffect := publish_effect channel.mailbox frame
    change Turn ⟨channel, .publish frame, .answer (channel.mailbox.publish frame).2,
      { channel with mailbox := (channel.mailbox.publish frame).1 }⟩
    generalize channel.mailbox.publish frame = r at heffect ⊢
    cases heffect with
    | refused => exact .idle rfl rfl rfl rfl ⟨_, rfl⟩
    | accepted => exact .published rfl rfl rfl rfl rfl
  | claim now =>
    obtain ⟨r, heffect, hstep⟩ := step_claim channel now
    rw [event, hstep]
    cases heffect with
    | refused => exact .idle rfl rfl rfl rfl ⟨true, rfl⟩
    | frame latest _ hfree happlied =>
      exact .issued .frame (latest.command == commandStop) rfl rfl rfl hfree (.inl happlied) rfl rfl
    | release hfree hreleased =>
      exact .issued .release true rfl rfl rfl hfree (.inr hreleased) rfl rfl
  | canDeliver token now => exact .idle rfl rfl rfl rfl ⟨_, rfl⟩
  | complete token delivered =>
    obtain ⟨r, heffect, hstep⟩ := step_complete channel token delivered
    rw [event, hstep]
    cases heffect with
    | refused =>
      refine .idle rfl rfl ?_ rfl ⟨_, rfl⟩
      cases delivered <;> rfl
    | failed _ hdelivered =>
      subst hdelivered
      exact .freed rfl rfl rfl rfl rfl
    | delivered hheld htoken hdelivered =>
      subst hdelivered
      exact .delivered rfl rfl rfl (hheld ▸ htoken) rfl rfl

/-! ## The order of the watermarks -/

/-- The run has not exhausted the revision and token counters. -/
def Few (evs : List ChannelEvent) : Prop :=
  (evs.filter publishes).length < 2 ^ 64 ∧ (evs.filterMap tokenIssuedBy).length < 2 ^ 64

instance (evs : List ChannelEvent) : Decidable (Few evs) :=
  inferInstanceAs (Decidable (_ ∧ _))

theorem Few.left {evs evs' : List ChannelEvent} (h : Few (evs ++ evs')) : Few evs := by
  obtain ⟨hpublished, hissued⟩ := h
  rw [filter_append, length_append] at hpublished
  rw [filterMap_append, length_append] at hissued
  constructor <;> omega

/-- While the counters last: they count, and no watermark is ahead of the
revision it was taken from. -/
structure Ordered (evs : List ChannelEvent) (channel : Channel) : Prop where
  revision : channel.mailbox.revision.toNat = (evs.filter publishes).length
  token : channel.cursor.nextToken.toNat = (evs.filterMap tokenIssuedBy).length
  issued : ∀ t ∈ evs.filterMap tokenIssuedBy, t.toNat ≤ channel.cursor.nextToken.toNat
  released : channel.cursor.releasedRevision.toNat ≤ channel.cursor.appliedRevision.toNat
  applied : channel.cursor.appliedRevision.toNat ≤ channel.mailbox.revision.toNat
  flight : channel.cursor.inFlightToken ≠ 0 → channel.cursor.appliedRevision.toNat ≤
        channel.cursor.inFlightRevision.toNat ∧
      channel.cursor.inFlightRevision.toNat ≤ channel.mailbox.revision.toNat ∧
      channel.cursor.inFlightToken.toNat ≤ channel.cursor.nextToken.toNat

theorem Ordered.zero : Ordered [] {} where
  revision := rfl
  token := rfl
  issued := by intro t ht; cases ht
  released := Nat.le_refl _
  applied := Nat.le_refl _
  flight := by intro h; exact absurd rfl h

variable {revision token : UInt64} {channel : Channel} {evs : List ChannelEvent} {now : UInt64}

section Turns

variable {e : ChannelEvent}

theorem filter_publishes_snoc : ((evs ++ [e]).filter publishes).length =
    (evs.filter publishes).length + (if publishes e then 1 else 0) := by
  cases h : publishes e <;> simp [h]

theorem filterMap_token_none (h : tokenIssuedBy e = none) :
    (evs ++ [e]).filterMap tokenIssuedBy = evs.filterMap tokenIssuedBy := by
  simp [filterMap_append, h]

theorem filterMap_token_some {t : UInt64} (h : tokenIssuedBy e = some t) :
    (evs ++ [e]).filterMap tokenIssuedBy = evs.filterMap tokenIssuedBy ++ [t] := by
  simp [filterMap_append, h]

/-- While the counters last, the next revision and the next token do not wrap. -/
theorem Ordered.next_revision (h : Ordered evs e.pre) (hp : publishes e) (hfew : Few (evs ++ [e])) :
    (bump e.pre.mailbox.revision).toNat = e.pre.mailbox.revision.toNat + 1 := by
  have hcount := hfew.1
  rw [filter_publishes_snoc, hp, if_pos rfl, ← h.revision] at hcount
  exact toNat_bump hcount

theorem Ordered.next_token {t : UInt64} (h : Ordered evs e.pre) (hi : tokenIssuedBy e = some t)
    (hfew : Few (evs ++ [e])) :
    (bump e.pre.cursor.nextToken).toNat = e.pre.cursor.nextToken.toNat + 1 := by
  have hcount := hfew.2
  rw [filterMap_token_some hi, length_append, length_singleton, ← h.token] at hcount
  exact toNat_bump hcount

/-- The watermarks stay ordered. -/
theorem Ordered.turn (h : Ordered evs e.pre) (hturn : Turn e)
    (hfew : Few (evs ++ [e])) : Ordered (evs ++ [e]) e.post := by
  cases hturn with
  | idle hp hi hd hmailbox hcursor =>
    obtain ⟨bound, hcursor⟩ := hcursor
    constructor <;>
      simp only [hmailbox, hcursor, filter_publishes_snoc, hp, filterMap_token_none hi]
    · simpa using h.revision
    · exact h.token
    · exact h.issued
    · exact h.released
    · exact h.applied
    · exact h.flight
  | freed hp hi hd hmailbox hcursor =>
    constructor <;>
      simp only [hmailbox, hcursor, filter_publishes_snoc, hp, filterMap_token_none hi]
    · simpa using h.revision
    · exact h.token
    · exact h.issued
    · exact h.released
    · exact h.applied
    · intro hne
      exact absurd rfl hne
  | published hp hi hd hbump hcursor =>
    -- the only turn which moves the revision; it does not wrap
    have hnext := h.next_revision hp hfew
    rw [← hbump] at hnext
    constructor <;>
      simp only [hnext, hcursor, filter_publishes_snoc, hp, filterMap_token_none hi]
    · simpa using h.revision
    · exact h.token
    · exact h.issued
    · exact h.released
    · exact Nat.le_succ_of_le h.applied
    · intro hne
      have := h.flight hne
      omega
  | issued disposition completesRelease hp hi hd hfree hopen hmailbox hcursor =>
    have hnext := h.next_token hi hfew
    constructor <;>
      simp only [hmailbox, hcursor, filter_publishes_snoc, hp,
        filterMap_token_some hi, ClaimCursor.beginClaim, hnext]
    · simpa using h.revision
    · rw [length_append, length_singleton, h.token]
    · intro t ht
      rw [mem_append, mem_singleton] at ht
      rcases ht with ht | rfl
      · have := h.issued t ht
        omega
      · omega
    · exact h.released
    · exact h.applied
    · intro _
      exact ⟨h.applied, Nat.le_refl _, Nat.le_refl _⟩
  | delivered hp hi hd hheld hmailbox hcursor =>
    have hmoved := h.flight hheld
    constructor <;>
      simp only [hmailbox, hcursor, filter_publishes_snoc, hp, filterMap_token_none hi]
    · simpa using h.revision
    · exact h.token
    · exact h.issued
    · split
      · exact Nat.le_refl _
      · exact h.released.trans hmoved.1
    · exact hmoved.2.1
    · intro hne
      exact absurd rfl hne

/-! ## One claim from issue to completion -/

/-- Where the claim of `token` stands: in flight, with what completing it will
mean, or resolved for good. -/
inductive Awaiting (token revision : UInt64) (completesRelease : Bool) (channel : Channel) : Prop
  | flying (htoken : channel.cursor.inFlightToken = token)
      (hrevision : channel.cursor.inFlightRevision = revision)
      (hcompletes : channel.cursor.inFlightCompletesRelease = completesRelease)
      (howes : completesRelease = false → channel.cursor.releasedRevision.toNat < revision.toNat)
  | resolved (htoken : channel.cursor.inFlightToken ≠ token)
      (hpast : token.toNat ≤ channel.cursor.nextToken.toNat)

theorem Awaiting.turn {completesRelease : Bool} (h : Awaiting token revision completesRelease e.pre)
    (htoken : token ≠ 0) (hordered : Ordered evs e.pre) (hturn : Turn e) (hfew : Few (evs ++ [e])) :
    Awaiting token revision completesRelease e.post := by
  have hpast : token.toNat ≤ e.pre.cursor.nextToken.toNat := by
    cases h with
    | flying hheld =>
      have := (hordered.flight (hheld ▸ htoken)).2.2
      rw [hheld] at this
      exact this
    | resolved _ hpast => exact hpast
  have hkeep {bound : Bool} (hcursor : e.post.cursor = { e.pre.cursor with bound := bound }) :
      Awaiting token revision completesRelease e.post := by
    cases h with
    | flying => apply Awaiting.flying <;> rw [hcursor] <;> assumption
    | resolved => apply Awaiting.resolved <;> rw [hcursor] <;> assumption
  cases hturn with
  | idle _ _ _ hmailbox hcursor =>
    obtain ⟨bound, hcursor⟩ := hcursor
    exact hkeep hcursor
  | published _ _ _ _ hcursor => exact hkeep hcursor
  | freed _ _ _ _ hcursor | delivered _ _ _ _ _ hcursor =>
    apply Awaiting.resolved <;> rw [hcursor]
    · exact htoken.symm
    · exact hpast
  | issued _ _ _ hi _ hfree _ _ hcursor =>
    -- a later claim carries a later token
    have hnext := hordered.next_token hi hfew
    apply Awaiting.resolved <;> rw [hcursor]
    · show bump e.pre.cursor.nextToken ≠ token
      intro heq
      rw [heq] at hnext
      omega
    · show token.toNat ≤ (bump e.pre.cursor.nextToken).toNat
      omega

/-- An actuating frame was applied and nothing was released since. -/
def Owes (channel : Channel) : Prop :=
  channel.cursor.releasedRevision.toNat < channel.mailbox.revision.toNat

theorem Owes.turn (h : Owes e.pre) (hordered : Ordered evs e.pre) (hturn : Turn e)
    (hfew : Few (evs ++ [e])) (hquiet : delivers e = false) : Owes e.post := by
  unfold Owes at h ⊢
  cases hturn with
  | idle _ _ _ hmailbox hcursor =>
    obtain ⟨bound, hcursor⟩ := hcursor
    rw [hmailbox, hcursor]
    exact h
  | freed _ _ _ hmailbox hcursor | issued _ _ _ _ _ _ _ hmailbox hcursor =>
    rw [hmailbox, hcursor]
    exact h
  | published hp _ _ hbump hcursor =>
    rw [hcursor, hbump, hordered.next_revision hp hfew]
    omega
  | delivered _ _ hd =>
    cases hd.symm.trans hquiet

/-- The claims of `revision` are over: both watermarks stand on it and nothing
is in flight, or it is no longer the latest. -/
def Closed (revision : UInt64) (channel : Channel) : Prop :=
  (channel.mailbox.revision = revision ∧ channel.cursor.appliedRevision = revision ∧
    channel.cursor.releasedRevision = revision ∧
    channel.cursor.inFlightToken = 0) ∨
  revision.toNat < channel.mailbox.revision.toNat

theorem Closed.turn (h : Closed revision e.pre) (hordered : Ordered evs e.pre) (hturn : Turn e)
    (hfew : Few (evs ++ [e])) : Closed revision e.post := by
  unfold Closed at h ⊢
  cases hturn with
  | idle _ _ _ hmailbox hcursor =>
    obtain ⟨bound, hcursor⟩ := hcursor
    rw [hmailbox, hcursor]
    exact h
  | freed _ _ _ hmailbox hcursor =>
    rw [hmailbox, hcursor]
    rcases h with ⟨hr, ha, hrel, _⟩ | hlt
    · exact .inl ⟨hr, ha, hrel, rfl⟩
    · exact .inr hlt
  | published hp _ _ hbump hcursor =>
    right
    rw [hbump, hordered.next_revision hp hfew]
    rcases h with ⟨hr, _⟩ | hlt
    · rw [hr]
      exact Nat.lt_succ_self _
    · omega
  | issued _ _ _ _ _ _ hopen hmailbox =>
    rw [hmailbox]
    rcases h with ⟨hr, ha, hrel, _⟩ | hlt
    · rw [hr, ha, hrel] at hopen
      simp at hopen
    · exact .inr hlt
  | delivered _ _ _ hheld hmailbox =>
    rw [hmailbox]
    rcases h with ⟨_, _, _, hfree⟩ | hlt
    · exact absurd hfree hheld
    · exact .inr hlt

theorem Closed.not_issued {t : UInt64} (h : Closed revision e.pre) (hturn : Turn e)
    (hissued : tokenIssuedBy e = some t) : e.pre.mailbox.revision ≠ revision := by
  cases hturn with
  | issued _ _ _ _ _ _ hopen =>
    rcases h with ⟨hr, ha, hrel, _⟩ | hlt
    · rw [hr, ha, hrel] at hopen
      simp at hopen
    · intro heq
      rw [heq] at hlt
      exact Nat.lt_irrefl _ hlt
  | idle _ hi | freed _ hi | published _ hi
  | delivered _ hi =>
    cases hi.symm.trans hissued

end Turns

/-- Whether delivering a claim also releases its revision: it is a release,
or the frame of a stop. -/
def releases (disposition : ClaimDisposition) (frame : Frame) : Bool :=
  decide (disposition = .release) || frame.command == commandStop

/-- What issuing a claim sets up. -/
theorem claim_awaiting (hordered : Ordered evs channel)
    {frame : Frame} {disposition : ClaimDisposition}
    (h : (step channel (.claim now)).2 = .claimed frame disposition token)
    (hdisposition : disposition ≠ .none) :
    token ≠ 0 ∧ Awaiting token channel.mailbox.revision
        (releases disposition frame) (step channel (.claim now)).1 := by
  obtain ⟨r, heffect, hstep⟩ := step_claim channel now
  rw [hstep] at h ⊢
  cases heffect with
  | refused =>
    cases h
    exact absurd rfl hdisposition
  | frame latest _ _ happlied =>
    cases h
    refine ⟨bump_ne_zero _, .flying rfl rfl (by simp [ClaimCursor.beginClaim, releases]) ?_⟩
    intro _
    have hne : channel.cursor.appliedRevision.toNat ≠
        channel.mailbox.revision.toNat := fun heq =>
      happlied (UInt64.toNat_inj.1 heq)
    have h₁ := hordered.released
    have h₂ := hordered.applied
    show channel.cursor.releasedRevision.toNat < channel.mailbox.revision.toNat
    omega
  | release =>
    cases h
    refine ⟨bump_ne_zero _, .flying rfl rfl rfl ?_⟩
    intro hfalse
    cases hfalse

/-- What completing it with `delivered == true` leaves behind. -/
theorem Awaiting.completed {completesRelease : Bool}
    (h : Awaiting token revision completesRelease channel) (hordered : Ordered evs channel)
    (hdone : (step channel (.complete token true)).2 = .answer true) :
    (completesRelease = false → Owes (step channel (.complete token true)).1) ∧
      (completesRelease → Closed revision (step channel (.complete token true)).1) := by
  obtain ⟨r, heffect, hstep⟩ := step_complete channel token true
  rw [hstep] at hdone ⊢
  cases heffect with
  | refused => cases hdone
  | failed _ hfalse => cases hfalse
  | delivered hheld htoken =>
    cases h with
    | resolved hnot => exact absurd hheld hnot
    | flying _ hrevision hcompletes howes =>
      have hle := (hordered.flight (hheld ▸ htoken)).2.1
      rw [hrevision] at hle
      refine ⟨fun hfalse => ?_, fun htrue => ?_⟩
      · have hlt := howes hfalse
        rw [hfalse] at hcompletes
        rw [hcompletes]
        exact Nat.lt_of_lt_of_le hlt hle
      · rw [htrue] at hcompletes
        rcases Nat.eq_or_lt_of_le hle with heq | hlt
        · refine .inl ⟨(UInt64.toNat_inj.1 heq).symm, hrevision, ?_, rfl⟩
          rw [hcompletes]
          exact hrevision
        · exact .inr hlt

theorem ordered_run (ops : List Op) (hfew : Few (trace step {} ops)) :
    Ordered (trace step {} ops) (final step {} ops) :=
  history_run (P := fun evs channel => Few evs → Ordered evs channel) (fun _ => Ordered.zero)
    (fun _ channel op h hfew => (h hfew.left).turn (turn channel op) hfew)
    ops hfew

/-- A run in which a claim is made at `now` and, after `between`, the claim of
`token` is completed as delivered. -/
def deliveryRun (before : List Op) (now : UInt64) (between : List Op) (token : UInt64) : List Op :=
  before ++ Op.claim now :: between ++ [Op.complete token true]

/-- A delivered claim, from its issue in a run from the zero value to its
completion. -/
theorem completed_run {before between : List Op} {frame : Frame} {disposition : ClaimDisposition}
    (hclaim : (step (final step {} before) (.claim now)).2 = .claimed frame disposition token)
    (hdisposition : disposition ≠ .none)
    (hdone : (step (final step {} (before ++ Op.claim now :: between)) (.complete token true)).2 =
      .answer true)
    (hfew : Few (trace step {} (before ++ Op.claim now :: between))) :
    releases disposition frame = false ∧
        Owes (final step {} (deliveryRun before now between token)) ∨
      releases disposition frame ∧
        Closed (final step {} before).mailbox.revision
          (final step {} (deliveryRun before now between token)) := by
  rw [trace_append, trace_cons] at hfew
  rw [deliveryRun, final_snoc]
  rw [final_append, final_cons] at hdone ⊢
  have hbefore := ordered_run before hfew.left
  generalize final step {} before = channel at hclaim hdone hfew hbefore ⊢
  obtain ⟨htoken, hawaiting⟩ := claim_awaiting hbefore hclaim hdisposition
  generalize releases disposition frame = completesRelease at hawaiting ⊢
  -- the claim is followed through `between`, with the whole history behind it
  have hfollow := history_run_from (P := fun evs c => Few evs → Ordered evs c ∧
      Awaiting token channel.mailbox.revision completesRelease c)
    (fun evs c op h hfew =>
      ⟨(h hfew.left).1.turn (turn c op) hfew,
        (h hfew.left).2.turn htoken (h hfew.left).1 (turn c op) hfew⟩)
    (fun hfew => ⟨hbefore.turn (turn channel (.claim now)) hfew, hawaiting⟩)
    between
  rw [append_assoc, singleton_append] at hfollow
  obtain ⟨hordered, hawaiting'⟩ := hfollow hfew
  obtain ⟨howes, hclosed⟩ := hawaiting'.completed hordered hdone
  cases completesRelease with
  | false => exact .inl ⟨rfl, howes rfl⟩
  | true => exact .inr ⟨rfl, hclosed rfl⟩

/-- What holds since a state of a run is kept while the run stays within the
counters. -/
theorem kept_since {I : Channel → Prop} {quiet : ChannelEvent → Prop}
    (hkept : ∀ evs e, I e.pre → Ordered evs e.pre → Turn e → Few (evs ++ [e]) → quiet e → I e.post)
    {ops : List Op} (h : I (final step {} ops)) (after : List Op)
    (hquiet : ∀ e ∈ trace step (final step {} ops) after, quiet e)
    (hfew : Few (trace step {} (ops ++ after))) :
    I (final step {} (ops ++ after)) ∧ ∀ e ∈ trace step (final step {} ops) after, I e.pre := by
  induction after using reverseRecOn with
  | nil =>
    rw [append_nil]
    exact ⟨h, fun e he => by cases he⟩
  | append_singleton after op ih =>
    rw [trace_snoc] at hquiet ⊢
    rw [← append_assoc, trace_snoc] at hfew
    obtain ⟨hpre, hall⟩ := ih (fun e he => hquiet e (mem_append_left _ he)) hfew.left
    rw [final_append] at hpre
    have hstate : final step {} (ops ++ after) =
      final step (final step {} ops) after := final_append ..
    rw [hstate] at hfew
    refine ⟨?_, ?_⟩
    · rw [← append_assoc, final_snoc, hstate]
      exact hkept _ (event step _ op) hpre (hstate ▸ ordered_run _ hfew.left) (turn _ op) hfew
        (hquiet _ (by simp))
    · intro e he
      rw [mem_append, mem_singleton] at he
      rcases he with he | rfl
      · exact hall e he
      · exact hpre

/-- A claim of a stale snapshot behind the released watermark is a release
with a token no claim carried before. -/
theorem Owes.claim_release (h : Owes channel) (hordered : Ordered evs channel) {latest : Frame}
    (hfree : channel.cursor.inFlightToken = 0) (hlatest : channel.mailbox.latest = some latest)
    (hstale : latest.freshAt now = false) (hfew : Few (evs ++ [event step channel (.claim now)])) :
    ∃ token, (step channel (.claim now)).2 = .claimed {} .release token ∧
      token ≠ 0 ∧ token ∉ evs.filterMap tokenIssuedBy := by
  obtain ⟨r, heffect, hstep⟩ := step_claim channel now
  rw [event, hstep] at hfew
  rw [hstep]
  cases heffect with
  | refused hwhy =>
    unfold Owes at h
    rw [hwhy latest hlatest hfree hstale] at h
    exact absurd h (Nat.lt_irrefl _)
  | frame other hother _ _ hfresh =>
    cases hlatest.symm.trans hother
    cases hstale.symm.trans hfresh
  | release =>
    have hnext := hordered.next_token rfl hfew
    refine ⟨bump channel.cursor.nextToken, rfl, bump_ne_zero _, fun hmem => ?_⟩
    have hle := hordered.issued _ hmem
    dsimp only at hnext
    omega

/-- **The release obligation.**  In a run with fewer than `2 ^ 64` publications
and claims:

* when the last claim completed as delivered was a frame which applies an
  effect, then in every later state with nothing in flight and a latest frame
  which is not fresh, `Claim` returns a release with a token never used
  before — whatever failed in between;
* once a release, or the frame of a stop, is delivered, no claim of its
  revision is issued again. -/
theorem delivered_claims_decide_release :
    (∀ (before between after : List Op) (now now' token : UInt64) (frame latest : Frame),
      (step (final step {} before) (.claim now)).2 = .claimed frame .frame token →
      frame.command = commandApply →
      (step (final step {} (before ++ Op.claim now :: between))
        (.complete token true)).2 = .answer true →
      (∀ e ∈ trace step (final step {} (deliveryRun before now between token)) after,
        delivers e = false) →
      (final step {} (deliveryRun before now between token ++ after)).cursor.inFlightToken = 0 →
      (final step {} (deliveryRun before now between token ++ after)).mailbox.latest = some latest →
      latest.freshAt now' = false →
      Few (trace step {} (deliveryRun before now between token ++ after ++ [Op.claim now'])) →
      ∃ token', (step (final step {} (deliveryRun before now between token ++ after))
        (.claim now')).2 =
            .claimed {} .release token' ∧
        token' ≠ 0 ∧
        token' ∉ (trace step {}
          (deliveryRun before now between token ++ after)).filterMap tokenIssuedBy) ∧
    (∀ (before between after : List Op) (now token : UInt64) (frame : Frame)
        (disposition : ClaimDisposition),
      (step (final step {} before) (.claim now)).2 = .claimed frame disposition token →
      (disposition = .release ∨ disposition = .frame ∧ frame.command = commandStop) →
      (step (final step {} (before ++ Op.claim now :: between))
        (.complete token true)).2 = .answer true →
      Few (trace step {} (deliveryRun before now between token ++ after)) →
      ∀ e ∈ trace step (final step {} (deliveryRun before now between token)) after,
        ∀ t, tokenIssuedBy e = some t →
          e.pre.mailbox.revision ≠ (final step {} before).mailbox.revision) := by
  constructor
  · intro before between after now now' token frame latest hclaim happly hdone
      hquiet hfree hlatest hstale hfew
    rw [trace_snoc] at hfew
    have hrun := hfew.left
    have hmid := hrun
    rw [trace_append, deliveryRun, trace_append] at hmid
    rcases completed_run hclaim (by decide) hdone hmid.left.left with
      ⟨_, howes⟩ | ⟨hreleases, _⟩
    · obtain ⟨howes', _⟩ := kept_since
        (fun _ _ h hordered hturn hfew hquiet => h.turn hordered hturn hfew hquiet)
        howes after hquiet hrun
      exact howes'.claim_release (ordered_run _ hrun) hfree hlatest hstale hfew
    · rw [releases, happly] at hreleases
      exact absurd hreleases (by decide)
  · intro before between after now token frame disposition hclaim hkind hdone hfew
    have hmid := hfew
    rw [trace_append, deliveryRun, trace_append] at hmid
    have hreleases : releases disposition frame := by
      rcases hkind with rfl | ⟨rfl, hstop⟩
      · rfl
      · rw [releases, hstop]; rfl
    have hdisposition : disposition ≠ .none := by
      rcases hkind with rfl | ⟨rfl, _⟩ <;> decide
    rcases completed_run hclaim hdisposition hdone hmid.left.left with
      ⟨hnot, _⟩ | ⟨_, hclosed⟩
    · cases hreleases.symm.trans hnot
    · obtain ⟨_, hall⟩ := kept_since (fun _ _ h hordered hturn hfew _ => h.turn hordered hturn hfew)
        hclosed after (fun _ _ => trivial) hfew
      intro e he t ht
      obtain ⟨_, op, _, _, rfl⟩ := mem_trace he
      exact (hall _ he).not_issued (turn _ op) ht

/-- An effect which is live only at time zero. -/
def pulse (ownershipEpoch sequence : UInt64) : Frame :=
  { version := version1
    source := sourceXboxOneVirtualDevice
    command := commandApply
    actuators := actuatorAll
    bodyLow := 1000
    sequence := sequence
    deviceGeneration := 1
    transportGeneration := 1
    ownershipEpoch := ownershipEpoch
    timestampMicroseconds := 0
    timeToLiveMicroseconds := 1 }

/-- An applied pulse expires; its first release fails to reach the device. -/
theorem expired_pulse_released_again :
    ∃ token', (step (final step {} (deliveryRun [.publish (pulse 1 1)] 0 [] 1 ++
          [Op.claim 5, Op.complete 2 false])) (.claim 6)).2 = .claimed {} .release token' ∧
        token' ≠ 0 ∧
        token' ∉ (trace step {} (deliveryRun [.publish (pulse 1 1)] 0 [] 1 ++
          [Op.claim 5, Op.complete 2 false])).filterMap
            tokenIssuedBy :=
  delivered_claims_decide_release.1 [.publish (pulse 1 1)] []
    [.claim 5, .complete 2 false] 0 6 1 (pulse 1 1) (pulse 1 1)
    (by decide +kernel) rfl (by decide +kernel) (by decide +kernel)
    (by decide +kernel) (by decide +kernel) (by decide +kernel)
    (by decide +kernel)

/-! ## The wrapped revision -/

/-- `k` expired pulses of a new ownership epoch. -/
def pulses (k : Nat) : List Op :=
  (List.range k).map fun i => .publish (pulse 2 (UInt64.ofNat (i + 1)))

/-- The latest snapshot after `pulses k` on top of `pulse 1 2`. -/
def lastPulse : Nat → Frame
  | 0 => pulse 1 2
  | k + 1 => pulse 2 (UInt64.ofNat (k + 1))

theorem pulse_valid {sequence : UInt64} (h : sequence ≠ 0) : (pulse 2 sequence).valid := by
  rw [Frame.valid_iff]
  refine ⟨rfl, rfl, rfl, rfl, h, ?_⟩
  show (1 : UInt64) ≠ 0 ∧ (1 : UInt64) ≠ 0 ∧ (2 : UInt64) ≠ 0 ∧
    (1 : UInt64) ≠ 0 ∧ 1 ≤ maxTimeToLiveMicroseconds ∧
    (commandApply = commandApply ↔ (pulse 2 0).hasAmplitude)
  decide +kernel

theorem newer_lastPulse {k : Nat} (hk : k + 1 < 2 ^ 64) :
    newer (pulse 2 (UInt64.ofNat (k + 1))) (lastPulse k) := by
  cases k with
  | zero => decide +kernel
  | succ k =>
    have hlt : UInt64.ofNat (k + 1) < UInt64.ofNat (k + 1 + 1) := by
      have hk' : k + 1 < 2 ^ 64 := by omega
      rw [UInt64.lt_iff_toNat_lt, UInt64.toNat_ofNat_of_lt' hk, UInt64.toNat_ofNat_of_lt' hk']
      omega
    have hcommand : (commandApply != commandStop) := by decide
    simp only [newer, lastPulse, pulse, hcommand]
    simpa using hlt

/-- Pulses move the revision and nothing else. -/
theorem pulses_final (channel : Channel) (hlatest : channel.mailbox.latest = some (pulse 1 2))
    {k : Nat} (hk : k < 2 ^ 64) :
    final step channel (pulses k) =
        { channel with
          mailbox := ⟨some (lastPulse k), bump^[k] channel.mailbox.revision⟩ } ∧
      ∀ e ∈ trace step channel (pulses k), delivers e = false := by
  induction k with
  | zero =>
    refine ⟨?_, fun e he => by cases he⟩
    rw [lastPulse, ← hlatest]
    rfl
  | succ k ih =>
    obtain ⟨hfinal, hquiet⟩ := ih (by omega)
    have hpulses : pulses (k + 1) = pulses k ++ [.publish (pulse 2 (UInt64.ofNat (k + 1)))] := by
      rw [pulses, range_succ, map_append]
      rfl
    have hne : UInt64.ofNat (k + 1) ≠ 0 := by
      intro h0
      have := congrArg UInt64.toNat h0
      rw [UInt64.toNat_ofNat_of_lt' hk] at this
      simp at this
    have haccepted : Mailbox.publish ⟨some (lastPulse k), bump^[k] channel.mailbox.revision⟩
        (pulse 2 (UInt64.ofNat (k + 1))) =
        (⟨some (lastPulse (k + 1)), bump (bump^[k] channel.mailbox.revision)⟩, true) := by
      unfold Mailbox.publish
      rw [if_neg (by rw [pulse_valid hne]; decide)]
      show (if newer _ (lastPulse k) = false then _ else _) = _
      rw [newer_lastPulse hk]
      rfl
    refine ⟨?_, ?_⟩
    · rw [hpulses, final_snoc, hfinal, Function.iterate_succ_apply']
      simp only [step, haccepted]
    · rw [hpulses, trace_snoc]
      intro e he
      rw [mem_append, mem_singleton] at he
      rcases he with he | rfl
      · exact hquiet e he
      · rfl

/-- Release revision one, apply revision two, then publish until the counter
is back at one: the applied effect is never released. -/
theorem wrapped_revision_strands_actuator :
    ∃ (before after : List Op) (now now' token : UInt64) (frame latest : Frame),
      (step (final step {} before) (.claim now)).2 = .claimed frame .frame token ∧
      frame.command = commandApply ∧
      (step (final step {} (before ++ [Op.claim now])) (.complete token true)).2 = .answer true ∧
      (∀ e ∈ trace step (final step {} (deliveryRun before now [] token)) after,
        delivers e = false) ∧
      (final step {} (deliveryRun before now [] token ++ after)).cursor.inFlightToken = 0 ∧
      (final step {} (deliveryRun before now [] token ++ after)).mailbox.latest = some latest ∧
      latest.freshAt now' = false ∧
      (step (final step {} (deliveryRun before now [] token ++ after)) (.claim now')).2 =
        .claimed {} .none 0 := by
  obtain ⟨k, hk⟩ : ∃ k, k + 3 = 2 ^ 64 := ⟨2 ^ 64 - 3, by norm_num⟩
  have hbefore : final step {} (deliveryRun [.publish (pulse 1 1),
      .claim 100, .complete 1 true, .publish (pulse 1 2)] 0 [] 2) =
      { mailbox := ⟨some (pulse 1 2), 2⟩
        cursor :=
          { appliedRevision := 2, releasedRevision := 1, nextToken := 2
            bound := true } } := by decide +kernel
  have hwrapped : bump^[k + 1] (2 : UInt64) = 1 := by
    rw [Function.iterate_succ_apply']
    apply bump_last
    rw [toNat_iterate_bump (by show 2 + k < _; omega)]
    show 2 + k + 1 = _
    omega
  obtain ⟨hfinal, hquiet⟩ := pulses_final
    { mailbox := ⟨some (pulse 1 2), 2⟩
      cursor :=
        { appliedRevision := 2, releasedRevision := 1, nextToken := 2
          bound := true } } rfl (k := k + 1) (by omega)
  have hstale : (lastPulse (k + 1)).freshAt 100 = false := by
    show (pulse 2 0).freshAt 100 = false
    decide +kernel
  refine ⟨[.publish (pulse 1 1), .claim 100, .complete 1 true,
    .publish (pulse 1 2)], pulses (k + 1), 0, 100, 2, pulse 1 2,
    lastPulse (k + 1), by decide +kernel, rfl, by decide +kernel, ?_, ?_, ?_,
    hstale, ?_⟩
  · rw [hbefore]
    exact hquiet
  · rw [final_append, hbefore, hfinal]
  · rw [final_append, hbefore, hfinal]
  · rw [final_append, hbefore, hfinal] -- the released watermark and the revision coincide again
    simp only [step, Mailbox.claim, hwrapped, hstale]
    rfl

end Channel

end Viiper.Ports.Feedback
