import Viiper.Verified.Simulation
import Viiper.Ports.FixedReportScheduler

/-!
# The abstract history of a fixed-report scheduler

Between faults and retirements the scheduler is an account of ordinals: every
accepted publication receives the next ordinal, and an ordinal is in the latest
slot, in the journal, in the retry slot, in flight, committed, or given up.
`History` keeps only this account, and `Move` lists everything that can happen
to it; what a caller can see of one move is an `Observation`.

Times, states, leases, tokens and the ring are absent: the scheduler is
connected to this machine in `FixedReportRefinement`.
-/

namespace Viiper.Ports.FixedReportHistory

open Verified Go List Option
open FixedReportScheduler (ClaimSource)

/-! ## The machine -/

/-- The claim in flight: where it came from, which ordinal it presents, whether
a deferral must keep it, and its bytes. -/
structure InFlight where
  source : ClaimSource
  ordinal : Nat
  (ordered recover : Bool)
  data : Bytes

/-- The occupant of the retry slot. -/
structure Deferred where
  ordinal : Nat
  ordered : Bool
  data : Bytes

/-- The account of ordinals. -/
@[ext]
structure History where
  claim : Option InFlight
  retry : Option Deferred
  journal : List Nat
  latest : Option Nat
  presented : Nat
  presentedData : Bytes
  next : Nat

/-- What one call shows: the ordinal it accepted and whether as a boundary, the
continuous ordinal it promoted, the ordinal and bytes it claimed, the source
and ordinal it committed, and the source and ordinal it gave up. -/
structure Observation where
  published : Option (Nat × Bool) := none
  promoted : Option Nat := none
  claimed : Option (Nat × Bytes) := none
  (committed dropped : Option (ClaimSource × Nat) := none)

/-- A boundary makes the unordered claim of the latest slot its dependency. -/
def InFlight.require (a : InFlight) : InFlight :=
  if a.source = .latest ∧ a.ordered = false then { a with recover := true }
  else a

/-- The claim slot after a boundary is accepted. -/
def History.requireClaim (h : History) : Option InFlight :=
  match h.latest with
  | some _ => h.claim
  | none => h.claim.map InFlight.require

/-- Everything that can happen to the account in one call. -/
inductive Move : History → Observation → History → Prop
  | silent (h : History) : Move h {} h
  | continuous (h : History) :
      Move h { published := some (h.next + 1, false) }
        { h with latest := some (h.next + 1), next := h.next + 1 }
  | boundary (h : History) :
      Move h { published := some (h.next + 1, true), promoted := h.latest }
        { h with
          claim := h.requireClaim
          journal := h.journal ++ h.latest.toList ++ [h.next + 1]
          latest := none
          next := h.next + 1 }
  | claimRetry (h : History) (r : Deferred) (hclaim : h.claim = none) (hretry : h.retry = some r) :
      Move h { claimed := some (r.ordinal, r.data) }
        { h with
          claim := some ⟨.retry, r.ordinal, r.ordered, false, r.data⟩
          retry := none }
  | claimJournal (h : History) (n : Nat) (rest : List Nat) (data : Bytes)
      (hclaim : h.claim = none) (hretry : h.retry = none)
      (hjournal : h.journal = n :: rest) :
      Move h { claimed := some (n, data) }
        { h with
          claim := some ⟨.journal, n, true, false, data⟩
          journal := rest }
  | claimLatest (h : History) (n : Nat) (data : Bytes)
      (hclaim : h.claim = none) (hretry : h.retry = none)
      (hjournal : h.journal = []) (hlatest : h.latest = some n) :
      Move h { claimed := some (n, data) }
        { h with
          claim := some ⟨.latest, n, false, false, data⟩
          latest := none }
  | claimIdle (h : History) (hclaim : h.claim = none) (hretry : h.retry = none)
      (hjournal : h.journal = []) (hlatest : h.latest = none) :
      Move h { claimed := some (h.presented, h.presentedData) }
        { h with
          claim := some ⟨.idle, h.presented, false, false, h.presentedData⟩ }
  | commit (h : History) (a : InFlight) (hclaim : h.claim = some a) :
      Move h { committed := some (a.source, a.ordinal) }
        { h with
          claim := none, presented := a.ordinal, presentedData := a.data }
  | deferOrdered (h : History) (a : InFlight) (hclaim : h.claim = some a)
      (hkeep : a.ordered ∨ a.recover) :
      Move h {} { h with claim := none, retry := some ⟨a.ordinal, true, a.data⟩ }
  | deferContinuous (h : History) (a : InFlight) (hclaim : h.claim = some a)
      (hsource : a.source ≠ .idle) (hplain : a.ordered = false)
      (hfree : a.recover = false) :
      Move h {} { h with claim := none, retry := some ⟨a.ordinal, false, a.data⟩ }
  | drop (h : History) (a : InFlight) (hclaim : h.claim = some a)
      (hplain : a.ordered = false) (hfree : a.recover = false)
      (hsuperseded : a.source = .idle ∨ h.retry ≠ none ∨ h.journal ≠ [] ∨ h.latest ≠ none) :
      Move h { dropped := some (a.source, a.ordinal) } { h with claim := none }

/-- The account of a new scheduler: ordinal 1 is the neutral it presents. -/
def History.fresh (data : Bytes) : History :=
  ⟨none, none, [], none, 1, data, 1⟩

/-! ## What a sequence of observations records -/

/-- The ordinal an observation commits, unless it only repeats the presented
report. -/
def Observation.settled (o : Observation) : Option Nat :=
  o.committed.bind fun c => if c.1 = .idle then none else some c.2

/-- Accepted publications in order, with their boundary flag. -/
def publications (os : List Observation) : List (Nat × Bool) :=
  os.filterMap (·.published)

/-- Continuous ordinals promoted ahead of a boundary. -/
def promotions (os : List Observation) : List Nat :=
  os.filterMap (·.promoted)

/-- Claims in order, with the bytes they returned. -/
def claims (os : List Observation) : List (Nat × Bytes) :=
  os.filterMap (·.claimed)

/-- Committed ordinals in order. -/
def commits (os : List Observation) : List Nat :=
  os.filterMap Observation.settled

section Snoc

variable (os : List Observation) (o : Observation)

@[simp] theorem publications_snoc :
    publications (os ++ [o]) = publications os ++ o.published.toList := by
  cases h : o.published <;> simp [publications, h]

@[simp] theorem promotions_snoc : promotions (os ++ [o]) = promotions os ++ o.promoted.toList := by
  cases h : o.promoted <;> simp [promotions, h]

@[simp] theorem claims_snoc : claims (os ++ [o]) = claims os ++ o.claimed.toList := by
  cases h : o.claimed <;> simp [claims, h]

@[simp] theorem commits_snoc : commits (os ++ [o]) = commits os ++ o.settled.toList := by
  cases h : o.settled <;> simp [commits, h]

end Snoc

/-- An ordinal accepted as a boundary or promoted ahead of one. -/
def OrderedWork (os : List Observation) (n : Nat) : Prop :=
  (n, true) ∈ publications os ∨ n ∈ promotions os

/-! ## The line of ordinals -/

/-- The ordinal in flight; an idle claim repeats a committed one. -/
def InFlight.live (a : InFlight) : List Nat :=
  if a.source = .idle then [] else [a.ordinal]

def History.inFlight (h : History) : List Nat :=
  match h.claim with
  | some a => a.live
  | none => []

def History.deferred (h : History) : List Nat :=
  match h.retry with
  | some r => [r.ordinal]
  | none => []

/-- Ordinals not yet committed, in the order they will be presented. -/
def History.pending (h : History) : List Nat :=
  h.inFlight ++ (h.deferred ++ (h.journal ++ h.latest.toList))

/-- The initial neutral, what was committed, and what is pending. -/
def line (os : List Observation) (h : History) : List Nat :=
  1 :: (commits os ++ h.pending)

/-- What the source of a claim says about its flags. -/
def InFlight.Shaped (a : InFlight) : Prop :=
  match a.source with
  | .retry => True
  | .journal => a.ordered
  | .latest => True
  | .idle => a.ordered = false ∧ a.recover = false
  | .mandatoryNeutral => False

/-- The slots are consistent: a claim in flight leaves the retry slot empty. -/
structure Slots (h : History) : Prop where
  exclusive : ∀ a, h.claim = some a → h.retry = none
  shaped : ∀ a, h.claim = some a → a.Shaped

theorem InFlight.require_source (a : InFlight) : a.require.source = a.source := by
  unfold InFlight.require
  split <;> rfl

theorem InFlight.require_ordinal (a : InFlight) : a.require.ordinal = a.ordinal := by
  unfold InFlight.require
  split <;> rfl

theorem InFlight.require_ordered (a : InFlight) : a.require.ordered = a.ordered := by
  unfold InFlight.require
  split <;> rfl

theorem InFlight.require_data (a : InFlight) : a.require.data = a.data := by
  unfold InFlight.require
  split <;> rfl

variable {h h' : History} {n : Nat} {a : InFlight} {o : Observation} {os : List Observation}

-- where an ordinal is can be read off the slots
attribute [local simp] InFlight.live History.inFlight History.deferred History.pending line
  Observation.settled

/-- A dependency mark never disappears. -/
theorem InFlight.require_recover (h : a.recover) : a.require.recover := by
  unfold InFlight.require
  split
  · rfl
  · exact h

theorem InFlight.Shaped.require (h : a.Shaped) : a.require.Shaped := by
  unfold InFlight.require
  split
  · next hlatest => simp [InFlight.Shaped, hlatest.1]
  · exact h

/-- A boundary changes the claim in flight at most by its dependency mark. -/
theorem requireClaim_eq_some (ha : h.requireClaim = some a) :
    ∃ b, h.claim = some b ∧ (a = b ∨ a = b.require) := by
  unfold History.requireClaim at ha
  cases hl : h.latest with
  | some n =>
    rw [hl] at ha
    exact ⟨a, ha, .inl rfl⟩
  | none =>
    rw [hl] at ha
    obtain ⟨b, hb, rfl⟩ := map_eq_some_iff.1 ha
    exact ⟨b, hb, .inr rfl⟩

theorem Slots.move (hs : Slots h) (hm : Move h o h') : Slots h' := by
  cases hm with
  | silent => exact hs
  | continuous => exact ⟨hs.exclusive, hs.shaped⟩
  | boundary =>
    refine ⟨fun a ha => ?_, fun a ha => ?_⟩
    · obtain ⟨b, hb, -⟩ := requireClaim_eq_some ha
      exact hs.exclusive b hb
    · obtain ⟨b, hb, rfl | rfl⟩ := requireClaim_eq_some ha
      · exact hs.shaped a hb
      · exact (hs.shaped b hb).require
  | claimRetry r hclaim hretry =>
    exact ⟨fun _ _ => rfl, fun a ha => by cases ha; trivial⟩
  | claimJournal n rest data hclaim hretry hjournal =>
    exact ⟨fun _ _ => hretry, fun a ha => by cases ha; rfl⟩
  | claimLatest n data hclaim hretry hjournal hlatest =>
    exact ⟨fun _ _ => hretry, fun a ha => by cases ha; trivial⟩
  | claimIdle hclaim hretry hjournal hlatest =>
    exact ⟨fun _ _ => hretry, fun a ha => by cases ha; exact ⟨rfl, rfl⟩⟩
  | commit | deferOrdered | deferContinuous | drop => exact ⟨nofun, nofun⟩

theorem InFlight.require_live (a : InFlight) : a.require.live = a.live := by
  unfold InFlight.live
  rw [a.require_source, a.require_ordinal]

/-- A boundary does not change which ordinal is in flight. -/
theorem inFlight_requireClaim (h : History) (j : List Nat) (l : Option Nat) (n : Nat) :
    History.inFlight { h with claim := h.requireClaim, journal := j, latest := l, next := n }
      = h.inFlight := by
  unfold History.inFlight History.requireClaim
  cases h.latest with
  | some m => rfl
  | none =>
    cases h.claim with
    | none => rfl
    | some a => exact a.require_live

/-- **One move along the line.**  The line stays, or loses an ordinal given up
in flight, or one publication appends the next ordinal to a part of it. -/
theorem line_move (hs : Slots h) (hm : Move h o h') (os : List Observation) :
    (h'.next = h.next ∧ line (os ++ [o]) h' = line os h) ∨ (h'.next = h.next ∧ o.dropped.isSome ∧
        List.Sublist (line (os ++ [o]) h') (line os h)) ∨
      (h'.next = h.next + 1 ∧ ∃ l, List.Sublist l (line os h) ∧
        line (os ++ [o]) h' = l ++ [h.next + 1]) := by
  cases hm with
  | silent =>
    simp
  | continuous =>
    -- The replaced latest ordinal leaves the line; it was its last element.
    refine .inr <| .inr ⟨rfl, 1 :: (commits os ++ (h.inFlight ++
      (h.deferred ++ h.journal))), ?_, ?_⟩
    · simp
    · simp
  | boundary =>
    refine .inr <| .inr ⟨rfl, line os h, List.Sublist.refl _, ?_⟩
    unfold line History.pending
    rw [inFlight_requireClaim]
    simp
  | claimRetry r hclaim hretry =>
    simp [hclaim, hretry]
  | claimJournal n rest data hclaim hretry hjournal =>
    simp [hclaim, hretry, hjournal]
  | claimLatest _ _ hclaim hretry hjournal hlatest | claimIdle hclaim hretry hjournal hlatest =>
    simp [hclaim, hretry, hjournal, hlatest]
  | commit a hclaim =>
    by_cases hidle : a.source = .idle <;>
      simp [hclaim, hidle]
  | deferOrdered a hclaim hkeep =>
    have hsource : a.source ≠ .idle := by
      intro hidle
      have hshape := hs.shaped a hclaim
      rw [InFlight.Shaped, hidle] at hshape
      rcases hkeep with h1 | h1
      · exact absurd (hshape.1.symm.trans h1) (by decide)
      · exact absurd (hshape.2.symm.trans h1) (by decide)
    simp [hclaim, hs.exclusive a hclaim, hsource]
  | deferContinuous a hclaim hsource hplain hfree =>
    simp [hclaim, hs.exclusive a hclaim, hsource]
  | drop a hclaim hplain hfree hsuperseded =>
    simp [hclaim]

/-- The line is strictly increasing and never ahead of the last ordinal given
out; the presented report, and an idle claim of it, is the neutral or a
committed one. -/
structure Linear (os : List Observation) (h : History) : Prop where
  slots : Slots h
  increasing : (line os h).Pairwise (· < ·)
  bounded : ∀ n ∈ line os h, n ≤ h.next
  presented_mem : h.presented ∈ 1 :: commits os
  idle_mem : ∀ a, h.claim = some a → a.source = .idle → a.ordinal ∈ 1 :: commits os

theorem Linear.fresh (data : Bytes) : Linear [] (History.fresh data) := by
  refine ⟨⟨nofun, nofun⟩, ?_, ?_, ?_, nofun⟩ <;>
    simp [commits, History.fresh]

theorem settled_subset (os : List Observation) (o : Observation) :
    1 :: commits os ⊆ 1 :: commits (os ++ [o]) := by
  intro n hn
  rw [commits_snoc]
  rcases mem_cons.1 hn with hn | hn
  · exact mem_cons.2 (.inl hn)
  · exact mem_cons_of_mem _ (mem_append_left _ hn)

section Linear

variable (hl : Linear os h)

include hl

theorem Linear.move_presented (hm : Move h o h') : h'.presented ∈ 1 :: commits (os ++ [o]) := by
  cases hm with
  | commit a hclaim =>
    by_cases hidle : a.source = .idle
    · exact settled_subset _ _ (hl.idle_mem a hclaim hidle)
    · simp [hidle]
  | _ => exact settled_subset _ _ hl.presented_mem

theorem Linear.move_idle (hm : Move h o h') :
    ∀ a, h'.claim = some a → a.source = .idle → a.ordinal ∈ 1 :: commits (os ++ [o]) := by
  intro a ha hidle
  cases hm with
  | silent | continuous => exact settled_subset _ _ (hl.idle_mem a ha hidle)
  | boundary =>
    obtain ⟨b, hb, rfl | rfl⟩ := requireClaim_eq_some ha
    · exact settled_subset _ _ (hl.idle_mem a hb hidle)
    · rw [b.require_source] at hidle
      rw [b.require_ordinal]
      exact settled_subset _ _ (hl.idle_mem b hb hidle)
  | claimIdle => cases ha; exact settled_subset _ _ hl.presented_mem
  | claimRetry | claimJournal | claimLatest => cases ha; cases hidle
  | _ => cases ha

theorem Linear.move (hm : Move h o h') : Linear (os ++ [o]) h' := by
  have hline : (line (os ++ [o]) h').Pairwise (· < ·) ∧ ∀ n ∈ line (os ++ [o]) h', n ≤ h'.next := by
    rcases line_move hl.slots hm os with ⟨hnext, heq⟩ | ⟨hnext, -, hsub⟩ | ⟨hnext, l, hsub, heq⟩
    · rw [hnext, heq]
      exact ⟨hl.increasing, hl.bounded⟩
    · rw [hnext]
      exact ⟨hl.increasing.sublist hsub, fun n hn => hl.bounded n (hsub.subset hn)⟩
    have hle : ∀ m ∈ l, m < h.next + 1 := fun m hm =>
      Nat.lt_succ_of_le (hl.bounded m (hsub.subset hm))
    rw [hnext, heq, pairwise_append]
    refine ⟨⟨hl.increasing.sublist hsub, pairwise_singleton _ _, ?_⟩, fun n hn => ?_⟩
    · exact fun m hm => forall_mem_singleton.2 (hle m hm)
    · rcases mem_append.1 hn with hn | hn
      · exact (hle n hn).le
      · exact (mem_singleton.1 hn).le
  exact ⟨hl.slots.move hm, hline.1, hline.2, hl.move_presented hm, hl.move_idle hm⟩

/-- Committed ordinals precede pending ones. -/
theorem Linear.committed_lt {m : Nat} (hm : m ∈ 1 :: commits os) (hn : n ∈ h.pending) : m < n := by
  have hinc := hl.increasing
  unfold line at hinc
  rw [← cons_append, pairwise_append] at hinc
  exact hinc.2.2 m hm n hn

/-- The ordinal in flight precedes everything that waits behind it. -/
theorem Linear.inFlight_lt {m : Nat}
    (hm : m ∈ h.inFlight) (hn : n ∈ h.deferred ++ (h.journal ++ h.latest.toList)) : m < n := by
  have hinc := hl.increasing
  unfold line History.pending at hinc
  rw [← cons_append, pairwise_append, pairwise_append] at hinc
  exact hinc.2.1.2.2 m hm n hn

/-- The first ordinal of the journal precedes the rest and the latest slot. -/
theorem Linear.deferred_lt {m : Nat}
    (hm : m ∈ h.deferred) (hn : n ∈ h.journal ++ h.latest.toList) : m < n := by
  have hinc := hl.increasing
  unfold line History.pending at hinc
  rw [← cons_append, pairwise_append, pairwise_append, pairwise_append] at hinc
  exact hinc.2.1.2.1.2.2 m hm n hn

theorem Linear.pending_le (hn : n ∈ h.pending) : n ≤ h.next := by
  apply hl.bounded
  exact mem_cons_of_mem _ (mem_append_right _ hn)

end Linear

/-! ## What is never given up -/

/-- A ranking of claims and deferred reports which the moves respect: `p` marks
the claims, `q` the retry slots, that still owe their ordinal. -/
structure Policy (p : InFlight → Prop) (q : Deferred → Prop) : Prop where
  retried : ∀ r, q r → p ⟨.retry, r.ordinal, r.ordered, false, r.data⟩
  journaled : ∀ n data, p ⟨.journal, n, true, false, data⟩
  required : ∀ a, p a → p a.require
  deferred : ∀ a, p a → a.ordered ∨ a.recover → q ⟨a.ordinal, true, a.data⟩
  kept : ∀ a, p a → a.ordered = false → a.recover = false → q ⟨a.ordinal, false, a.data⟩

/-- `n` is journaled, or deferred or in flight in a way the policy marks. -/
def Owed (p : InFlight → Prop) (q : Deferred → Prop) (h : History) (n : Nat) : Prop :=
  n ∈ h.journal ∨ (∃ r, h.retry = some r ∧ r.ordinal = n ∧ q r) ∨
    ∃ a, h.claim = some a ∧ a.source ≠ .idle ∧ a.ordinal = n ∧ p a

/-- An owed ordinal stays owed until it is committed, or its claim is given up
by a deferral. -/
theorem Owed.move {p : InFlight → Prop} {q : Deferred → Prop} (hpol : Policy p q)
    (hs : Slots h) (hn : Owed p q h n) (hm : Move h o h') :
    Owed p q h' n ∨ o.settled = some n ∨ ∃ a, p a ∧ a.ordered = false ∧ a.recover = false ∧
        o.dropped = some (a.source, n) := by
  cases hm with
  | silent | continuous => exact .inl hn
  | boundary =>
    left
    rcases hn with hn | hn | ⟨a, ha, hsource, hord, hp⟩
    · exact .inl (by simp [hn])
    · exact .inr (.inl hn)
    refine .inr (.inr ?_)
    cases hl : h.latest with
    | some m => exact ⟨a, by simp [History.requireClaim, hl, ha], hsource, hord, hp⟩
    | none =>
      refine ⟨a.require, by simp [History.requireClaim, hl, ha], ?_, ?_, hpol.required a hp⟩
      · rw [a.require_source]; exact hsource
      · rw [a.require_ordinal]; exact hord
  | claimRetry r hclaim hretry =>
    left
    rcases hn with hn | ⟨r', hr, hord, hq⟩ | ⟨a, ha, -⟩
    · exact .inl hn
    · obtain rfl := mem_unique hretry hr
      exact .inr (.inr ⟨_, rfl, nofun, hord, hpol.retried r hq⟩)
    · simp [hclaim] at ha
  | claimJournal m rest data hclaim hretry hjournal =>
    left
    rcases hn with hn | ⟨r, hr, -⟩ | ⟨a, ha, -⟩
    · rw [hjournal, mem_cons] at hn
      rcases hn with rfl | hn
      · exact .inr (.inr ⟨_, rfl, nofun, rfl, hpol.journaled n data⟩)
      · exact .inl hn
    · simp [hretry] at hr
    · simp [hclaim] at ha
  | claimLatest _ _ hclaim hretry hjournal | claimIdle hclaim hretry hjournal =>
    rcases hn with hn | ⟨r, hr, -⟩ | ⟨a, ha, -⟩
    · simp [hjournal] at hn
    · simp [hretry] at hr
    · simp [hclaim] at ha
  | commit a hclaim =>
    rcases hn with hn | hn | ⟨b, hb, hsource, hord, -⟩
    · exact .inl (.inl hn)
    · exact .inl (.inr (.inl hn))
    · obtain rfl := mem_unique hclaim hb
      exact .inr (.inl (by simp [hsource, hord]))
  | deferOrdered a hclaim hkeep =>
    left
    rcases hn with hn | ⟨r, hr, -⟩ | ⟨b, hb, -, hord, hp⟩
    · exact .inl hn
    · simp [hs.exclusive a hclaim] at hr
    · obtain rfl := mem_unique hclaim hb
      exact .inr (.inl ⟨_, rfl, hord, hpol.deferred a hp hkeep⟩)
  | deferContinuous a hclaim hsource hplain hfree =>
    left
    rcases hn with hn | ⟨r, hr, -⟩ | ⟨b, hb, -, hord, hp⟩
    · exact .inl hn
    · simp [hs.exclusive a hclaim] at hr
    · obtain rfl := mem_unique hclaim hb
      exact .inr (.inl ⟨_, rfl, hord, hpol.kept a hp hplain hfree⟩)
  | drop a hclaim hplain hfree hsuperseded =>
    rcases hn with hn | hn | ⟨b, hb, hsource, hord, hp⟩
    · exact .inl (.inl hn)
    · exact .inl (.inr (.inl hn))
    obtain rfl := mem_unique hclaim hb
    exact .inr (.inr ⟨a, hp, hplain, hfree, by rw [hord]⟩)

/-- Ordered work: the flag travels with the entry. -/
theorem policy_ordered : Policy (fun a => a.ordered) (fun r => r.ordered) where
  retried _ h := h
  journaled _ _ := rfl
  required a h := by rw [a.require_ordered]; exact h
  deferred _ _ _ := rfl
  kept _ h h' := absurd (h'.symm.trans h) (by decide)

/-- Every ordered ordinal is committed, journaled, or an ordered occupant of the
retry slot or of the claim. -/
def Kept (os : List Observation) (h : History) : Prop :=
  ∀ n, OrderedWork os n → n ∈ commits os ∨
    Owed (fun a => a.ordered) (fun r => r.ordered) h n

/-- What a boundary adds to the ordered work is in the journal. -/
theorem OrderedWork.move (hm : Move h o h')
    (hn : OrderedWork (os ++ [o]) n) : OrderedWork os n ∨ n ∈ h'.journal := by
  unfold OrderedWork at hn ⊢
  cases hm with
  | boundary =>
    simp only [publications_snoc, promotions_snoc, toList_some,
      mem_append, mem_singleton, Prod.mk.injEq, and_true] at hn ⊢
    rcases hn with (hn | hn) | (hn | hn)
    · exact .inl (.inl hn)
    · exact .inr (.inr hn)
    · exact .inl (.inr hn)
    · exact .inr (.inl (.inr hn))
  | _ => exact .inl (by simpa using hn)

/-- **Ordered work is never given up.** -/
theorem Kept.move (hs : Slots h) (hk : Kept os h) (hm : Move h o h') : Kept (os ++ [o]) h' := by
  intro n hn
  rw [commits_snoc, mem_append, mem_toList]
  rcases hn.move hm with hn | hn
  · rcases hk n hn with hc | howed
    · exact .inl (.inl hc)
    rcases howed.move policy_ordered hs hm with hstay | hset |
      ⟨a, hord, hplain, -⟩
    · exact .inr hstay
    · exact .inl (.inr hset)
    · exact absurd (hplain.symm.trans hord) (by decide)
  · exact .inr (.inl hn)

/-- Ordered work is counted once over the four places it can be in. -/
theorem Kept.count_eq_one (hl : Linear os h) (hk : Kept os h) (hn : OrderedWork os n) :
    (commits os).count n + h.journal.count n + h.deferred.count n + h.inFlight.count n = 1 := by
  have hnodup : (line os h).Nodup := hl.increasing.imp Nat.ne_of_lt
  have hone : (line os h).count n ≤ 1 := nodup_iff_count.1 hnodup n
  have hsome : 0 < (commits os).count n + h.journal.count n +
      h.deferred.count n + h.inFlight.count n := by
    simp only [Nat.add_pos_iff_pos_or_pos, count_pos_iff]
    rcases hk n hn with hc | hj | ⟨r, hr, hord, -⟩ | ⟨a, ha, hsource, hord, -⟩
    · exact .inl (.inl (.inl hc))
    · exact .inl (.inl (.inr hj))
    · exact .inl (.inr (by simp [hr, hord]))
    · exact .inr (by
        simp [ha, hsource, hord])
  unfold line History.pending at hone
  simp only [count_cons, count_append] at hone
  omega

/-! ## Repeated claims -/

/-- The bytes returned for an ordinal are settled by its first claim: every slot
which can present it again still holds them. -/
structure Faithful (os : List Observation) (h : History) : Prop where
  agree : ∀ x ∈ claims os, ∀ y ∈ claims os, x.1 = y.1 → x.2 = y.2
  le_next : ∀ x ∈ claims os, x.1 ≤ h.next
  unclaimed : ∀ x ∈ claims os, ∀ n ∈ h.journal ++ h.latest.toList, x.1 < n
  inFlight : ∀ x ∈ claims os, ∀ a, h.claim = some a → x.1 = a.ordinal → x.2 = a.data
  deferred : ∀ x ∈ claims os, ∀ r, h.retry = some r → x.1 = r.ordinal → x.2 = r.data
  presented : ∀ x ∈ claims os, x.1 = h.presented → x.2 = h.presentedData

theorem Faithful.fresh (data : Bytes) : Faithful [] (History.fresh data) := by
  refine ⟨?_, ?_, ?_, ?_, ?_, ?_⟩ <;> intro x hx <;> cases hx

/-- A claim of `n` with bytes `data` is faithful when every earlier claim of `n`
returned `data` and nothing unclaimed is at or below `n`. -/
theorem Faithful.claim (hf : Faithful os h) (hclaim : h'.claim = some a)
    (hretry : h'.retry = none) (hnext : h'.next = h.next) (hle : a.ordinal ≤ h.next)
    (hpresented : h'.presented = h.presented) (hdata : h'.presentedData = h.presentedData)
    (hsub : ∀ n ∈ h'.journal ++ h'.latest.toList, n ∈ h.journal ++ h.latest.toList ∧ a.ordinal < n)
    (hagree : ∀ x ∈ claims os, x.1 = a.ordinal → x.2 = a.data)
    (hshown : a.ordinal = h.presented → a.data = h.presentedData) :
    Faithful (os ++ [{ claimed := some (a.ordinal, a.data) }]) h' := by
  have hmem : ∀ x, x ∈ claims (os ++ [{ claimed := some (a.ordinal, a.data) }]) →
      x ∈ claims os ∨ x = (a.ordinal, a.data) := by
    simp
  refine ⟨?_, ?_, ?_, ?_, ?_, ?_⟩
  · intro x hx y hy hxy
    rcases hmem x hx with hx | rfl <;> rcases hmem y hy with hy | rfl
    · exact hf.agree x hx y hy hxy
    · exact hagree x hx hxy
    · exact (hagree y hy hxy.symm).symm
    · rfl
  · intro x hx
    rw [hnext]
    rcases hmem x hx with hx | rfl
    · exact hf.le_next x hx
    · exact hle
  · intro x hx n hn
    obtain ⟨hold, hlt⟩ := hsub n hn
    rcases hmem x hx with hx | rfl
    · exact hf.unclaimed x hx n hold
    · exact hlt
  · intro x hx b hb hxb
    obtain rfl := mem_unique hclaim hb
    rcases hmem x hx with hx | rfl
    · exact hagree x hx hxb
    · rfl
  · intro x _ r hr
    cases hretry.symm.trans hr
  · intro x hx hxp
    rw [hpresented] at hxp
    rw [hdata]
    rcases hmem x hx with hx | rfl
    · exact hf.presented x hx hxp
    · exact hshown hxp

/-- Without a claim, a move is faithful when each slot either keeps its occupant
or takes over the ordinal and the bytes in flight. -/
theorem Faithful.keep (hf : Faithful os h) (ho : o.claimed = none) (hnext : h.next ≤ h'.next)
    (hnew : ∀ n ∈ h'.journal ++ h'.latest.toList, n ∈ h.journal ++ h.latest.toList ∨ h.next < n)
    (hclaim : ∀ a, h'.claim = some a → ∃ b, h.claim = some b ∧ a.ordinal = b.ordinal ∧
      a.data = b.data)
    (hretry : ∀ r, h'.retry = some r → h.retry = some r ∨
      ∃ b, h.claim = some b ∧ r.ordinal = b.ordinal ∧ r.data = b.data)
    (hshown : (h'.presented = h.presented ∧ h'.presentedData = h.presentedData) ∨
      ∃ b, h.claim = some b ∧ h'.presented = b.ordinal ∧ h'.presentedData = b.data) :
    Faithful (os ++ [o]) h' := by
  have hclaims : claims (os ++ [o]) = claims os := by
    rw [claims_snoc, ho, toList_none, append_nil]
  refine ⟨?_, ?_, ?_, ?_, ?_, ?_⟩ <;> rw [hclaims]
  · exact hf.agree
  · intro x hx
    exact (hf.le_next x hx).trans hnext
  · intro x hx n hn
    rcases hnew n hn with hn | hn
    · exact hf.unclaimed x hx n hn
    · exact lt_of_le_of_lt (hf.le_next x hx) hn
  · intro x hx a ha hxa
    obtain ⟨b, hb, hord, hdata⟩ := hclaim a ha
    rw [hdata]
    exact hf.inFlight x hx b hb (hxa.trans hord)
  · intro x hx r hr hxr
    rcases hretry r hr with hr | ⟨b, hb, hord, hdata⟩
    · exact hf.deferred x hx r hr hxr
    · rw [hdata]
      exact hf.inFlight x hx b hb (hxr.trans hord)
  · intro x hx hxp
    rcases hshown with ⟨hord, hdata⟩ | ⟨b, hb, hord, hdata⟩
    · rw [hdata]
      exact hf.presented x hx (hxp.trans hord)
    · rw [hdata]
      exact hf.inFlight x hx b hb (hxp.trans hord)

/-- **The bytes of an ordinal never change.** -/
theorem Faithful.move (hl : Linear os h)
    (hf : Faithful os h) (hm : Move h o h') : Faithful (os ++ [o]) h' := by
  -- A pending ordinal is not the presented one, which is committed.
  have hfresh : ∀ n ∈ h.pending, n ≠ h.presented := by
    intro n hn heq
    have hlt := hl.committed_lt hl.presented_mem hn
    omega
  have hsame : ∀ a, h.claim = some a → ∃ b, h.claim = some b ∧
      a.ordinal = b.ordinal ∧ a.data = b.data := fun a ha => ⟨a, ha, rfl, rfl⟩
  cases hm with
  | silent =>
    exact hf.keep rfl le_rfl (fun n hn => .inl hn) hsame (fun r hr => .inl hr) (.inl ⟨rfl, rfl⟩)
  | continuous =>
    refine hf.keep rfl (Nat.le_succ _) (fun n hn => ?_) hsame
      (fun r hr => .inl hr) (.inl ⟨rfl, rfl⟩)
    simp only [toList_some, mem_append, mem_singleton] at hn
    rcases hn with hn | rfl
    · exact .inl (mem_append_left _ hn)
    · exact .inr (Nat.lt_succ_self _)
  | boundary =>
    refine hf.keep rfl (Nat.le_succ _) (fun n hn => ?_) (fun a ha => ?_)
      (fun r hr => .inl hr) (.inl ⟨rfl, rfl⟩)
    · simp only [toList_none, append_nil] at hn
      rw [mem_append, mem_singleton] at hn
      rcases hn with hn | rfl
      · exact .inl hn
      · exact .inr (Nat.lt_succ_self _)
    · obtain ⟨b, hb, rfl | rfl⟩ := requireClaim_eq_some ha
      · exact hsame a hb
      · exact ⟨b, hb, b.require_ordinal, b.require_data⟩
  | claimRetry r hclaim hretry =>
    have hmem : r.ordinal ∈ h.deferred := by simp [hretry]
    have hpend : r.ordinal ∈ h.pending := by simp [hretry]
    exact hf.claim (a := ⟨.retry, r.ordinal, r.ordered, false, r.data⟩) rfl
      rfl rfl (hl.pending_le hpend) rfl rfl
      (fun n hn => ⟨hn, hl.deferred_lt hmem hn⟩)
      (fun x hx => hf.deferred x hx r hretry)
      (fun heq => absurd heq (hfresh _ hpend))
  | claimJournal n rest data hclaim hretry hjournal =>
    have hpend : n ∈ h.pending := by simp [hjournal]
    have hold : n ∈ h.journal ++ h.latest.toList := by simp [hjournal]
    refine hf.claim (a := ⟨.journal, n, true, false, data⟩) rfl hretry rfl
      (hl.pending_le hpend) rfl rfl (fun m hm => ⟨?_, ?_⟩)
      (fun x hx heq => absurd heq (hf.unclaimed x hx n hold).ne)
      (fun heq => absurd heq (hfresh _ hpend))
    · rw [hjournal, cons_append]
      exact mem_cons_of_mem _ hm
    · have hinc := hl.increasing
      simp only [line, History.pending, History.inFlight, History.deferred,
        hclaim, hretry, hjournal, nil_append, cons_append] at hinc
      rw [← cons_append, pairwise_append] at hinc
      exact rel_of_pairwise_cons hinc.2.1 hm
  | claimLatest n data hclaim hretry hjournal hlatest =>
    have hpend : n ∈ h.pending := by simp [hlatest]
    have hold : n ∈ h.journal ++ h.latest.toList := by simp [hlatest]
    refine hf.claim (a := ⟨.latest, n, false, false, data⟩) rfl hretry rfl
      (hl.pending_le hpend) rfl rfl (fun m hm => ?_)
      (fun x hx heq => absurd heq (hf.unclaimed x hx n hold).ne)
      (fun heq => absurd heq (hfresh _ hpend))
    simp [hjournal] at hm
  | claimIdle hclaim hretry hjournal hlatest =>
    refine hf.claim (a := ⟨.idle, h.presented, false, false, h.presentedData⟩) rfl hretry
      rfl ?_ rfl rfl (fun m hm => ?_) hf.presented (fun _ => rfl)
    · apply hl.bounded
      exact mem_append_left _ hl.presented_mem
    · simp [hjournal, hlatest] at hm
  | commit a hclaim =>
    exact hf.keep rfl le_rfl (fun n hn => .inl hn) nofun
      (fun r hr => .inl hr) (.inr ⟨a, hclaim, rfl, rfl⟩)
  | deferOrdered a hclaim | deferContinuous a hclaim =>
    refine hf.keep rfl le_rfl (fun n hn => .inl hn) nofun (fun r hr => ?_) (.inl ⟨rfl, rfl⟩)
    cases hr
    exact .inr ⟨a, hclaim, rfl, rfl⟩
  | drop a hclaim hplain hfree hsuperseded =>
    exact hf.keep rfl le_rfl (fun n hn => .inl hn) nofun (fun r hr => .inl hr) (.inl ⟨rfl, rfl⟩)

/-! ## Predecessors of boundaries -/

/-- Anything a later deferral still keeps, or that was retried at least once. -/
theorem policy_retried : Policy (fun a => a.ordered ∨ a.recover ∨ a.source = .retry)
      (fun _ => True) where
  retried _ _ := .inr (.inr rfl)
  journaled _ _ := .inl rfl
  required a h := by
    rcases h with h | h | h
    · exact .inl (a.require_ordered.trans h)
    · exact .inr (.inl (a.require_recover h))
    · exact .inr (.inr (a.require_source.trans h))
  deferred _ _ _ := trivial
  kept _ _ _ _ := trivial

/-- No claim of the retry slot is given up after its direct successor was
accepted as a boundary. -/
def RetriedKept (os : List Observation) (o : Observation) : Prop :=
  ∀ n, o.dropped = some (.retry, n) → (n + 1, true) ∉ publications os

/-- The predecessor of every boundary is committed or still owed, the newest
publication is committed or pending, and publications are numbered
consecutively. -/
structure Preceded (os : List Observation) (h : History) : Prop where
  predecessor : ∀ n, (n + 1, true) ∈ publications os → n ∈ 1 :: commits os ∨
    Owed (fun a => a.ordered ∨ a.recover ∨ a.source = .retry) (fun _ => True) h n
  newest : h.next ∈ line os h
  numbered : (publications os).map Prod.fst = List.range' 2 (publications os).length
  next_eq : h.next = (publications os).length + 1

theorem Preceded.fresh (data : Bytes) : Preceded [] (History.fresh data) := by
  refine ⟨?_, ?_, ?_, ?_⟩ <;>
    simp [publications, commits, History.fresh]

/-- The newest publication is never given up: whatever supersedes a claim has a
larger ordinal. -/
theorem Linear.move_newest (hl : Linear os h)
    (hnew : h.next ∈ line os h) (hm : Move h o h') : h'.next ∈ line (os ++ [o]) h' := by
  rcases line_move hl.slots hm os with ⟨hnext, heq⟩ | ⟨-, hdrop, -⟩ |
    ⟨hnext, l, -, heq⟩
  · rw [hnext, heq]
    exact hnew
  · cases hm with
    | drop a hclaim hplain hfree hsuperseded =>
      have hflight : h.next ∉ h.inFlight := by
        intro hmem
        have hlast : ∀ n ∈ h.journal ++ h.latest.toList, False := by
          intro n hn
          have hlt := hl.inFlight_lt hmem (mem_append_right _ hn)
          have hle : n ≤ h.next := hl.pending_le (by
            exact mem_append_right _ (mem_append_right _ hn))
          omega
        rcases hsuperseded with hidle | hretry | hjournal | hlatest
        · simp [hclaim, hidle] at hmem
        · exact hretry (hl.slots.exclusive a hclaim)
        · obtain ⟨n, hn⟩ := exists_mem_of_ne_nil _ hjournal
          exact hlast n (mem_append_left _ hn)
        · obtain ⟨n, hn⟩ := ne_none_iff_exists'.1 hlatest
          exact hlast n (by simp [hn])
      simp only [line, History.pending, mem_cons, mem_append] at hnew
      simp only [line, History.pending, commits_snoc, mem_cons, mem_append]
      tauto
    | _ => cases hdrop
  · rw [hnext, heq]
    exact mem_append_right _ (mem_singleton.2 rfl)

/-- When a boundary is accepted, the pending newest publication becomes owed
wherever it is: in the latest slot it is promoted, in flight it is marked unless
it was retried. -/
theorem Linear.owed_of_boundary (hl : Linear os h) (hpend : h.next ∈ h.pending) :
    Owed (fun a => a.ordered ∨ a.recover ∨ a.source = .retry) (fun _ => True) { h with
        claim := h.requireClaim
        journal := h.journal ++ h.latest.toList ++ [h.next + 1]
        latest := none
        next := h.next + 1 } h.next := by
  rcases mem_append.1 hpend with hmem | hmem
  · have hlatest : h.latest = none := by
      cases hcase : h.latest with
      | none => rfl
      | some n =>
        have hn : n ∈ h.deferred ++ (h.journal ++ h.latest.toList) := by
          simp [hcase]
        have hlt := hl.inFlight_lt hmem hn
        have hle : n ≤ h.next :=
          hl.pending_le (mem_append_right _ hn)
        omega
    cases hclaim : h.claim with
    | none => simp [hclaim] at hmem
    | some a =>
      have hshape := hl.slots.shaped a hclaim
      have hsource : a.source ≠ .idle := by
        intro hidle
        simp [hclaim, hidle] at hmem
      have hord : a.ordinal = h.next := by
        simpa [hclaim, hsource, eq_comm] using hmem
      refine .inr (.inr ⟨a.require, ?_, ?_, ?_, ?_⟩)
      · simp [History.requireClaim, hlatest, hclaim]
      · rw [a.require_source]
        exact hsource
      · rw [a.require_ordinal]
        exact hord
      · unfold InFlight.Shaped at hshape
        cases hs : a.source with
        | retry => exact .inr (.inr (a.require_source.trans hs))
        | journal =>
          rw [hs] at hshape
          exact .inl (a.require_ordered.trans hshape)
        | latest =>
          by_cases ho : a.ordered
          · exact .inl (a.require_ordered.trans ho)
          · refine .inr (.inl ?_)
            rw [InFlight.require, if_pos ⟨hs, by simpa using ho⟩]
        | idle => exact absurd hs hsource
        | mandatoryNeutral =>
          rw [hs] at hshape
          exact hshape.elim
  · rcases mem_append.1 hmem with hmem | hmem
    · cases hretry : h.retry with
      | none => simp [hretry] at hmem
      | some r =>
        have hord : r.ordinal = h.next := by
          simpa [hretry, eq_comm] using hmem
        exact .inr (.inl ⟨r, rfl, hord, trivial⟩)
    · exact .inl (mem_append_left _ hmem)

/-- An accepted publication takes the next ordinal. -/
theorem published_cases (hm : Move h o h') :
    (o.published = none ∧ h'.next = h.next) ∨ ∃ ordered, o.published = some (h.next + 1, ordered) ∧
        h'.next = h.next + 1 := by
  cases hm with
  | continuous => exact .inr ⟨false, rfl, rfl⟩
  | boundary => exact .inr ⟨true, rfl, rfl⟩
  | _ => exact .inl ⟨rfl, rfl⟩

/-- **Predecessors are kept**, unless a retried claim is given up under its
boundary. -/
theorem Preceded.move (hl : Linear os h)
    (hp : Preceded os h) (hok : RetriedKept os o) (hm : Move h o h') : Preceded (os ++ [o]) h' := by
  refine ⟨?_, hl.move_newest hp.newest hm, ?_, ?_⟩
  · intro n hn
    rw [publications_snoc, mem_append, mem_toList] at hn
    rcases hn with hn | hn
    · rcases hp.predecessor n hn with hc | howed
      · exact .inl (settled_subset _ _ hc)
      rcases howed.move policy_retried hl.slots hm with hstay | hset |
        ⟨a, hkeep, hplain, hfree, hdrop⟩
      · exact .inr hstay
      · exact .inl (by simp [hset, -Observation.settled])
      rcases hkeep with hkeep | hkeep | hkeep
      · exact absurd (hplain.symm.trans hkeep) (by decide)
      · exact absurd (hfree.symm.trans hkeep) (by decide)
      · rw [hkeep] at hdrop
        exact absurd hn (hok n hdrop)
    · cases hm with
      | boundary =>
        obtain rfl : h.next = n := by simpa using hn
        have hnew := hp.newest
        unfold line at hnew
        rw [← cons_append, mem_append] at hnew
        rcases hnew with hc | hpend
        · exact .inl (settled_subset _ _ hc)
        · exact .inr (hl.owed_of_boundary hpend)
      | continuous => simp at hn
      | _ => cases hn
  · rw [publications_snoc, map_append, length_append, hp.numbered]
    rcases published_cases hm with ⟨hpub, -⟩ | ⟨ordered, hpub, -⟩
    · simp [hpub]
    rw [hpub, toList_some, length_singleton, range'_1_concat, map_singleton, hp.next_eq]
    congr 2
    omega
  · rw [publications_snoc, length_append]
    rcases published_cases hm with ⟨hpub, hnext⟩ | ⟨ordered, hpub, hnext⟩
    · rw [hpub, hnext]
      exact hp.next_eq
    · rw [hpub, hnext, hp.next_eq]
      rfl

theorem Preceded.ordinal_eq (hp : Preceded os h) {k : Nat} {ordered : Bool}
    (hk : (publications os)[k]? = some (n, ordered)) : n = k + 2 := by
  have hnum := congrArg (fun l => l[k]?) hp.numbered
  have hlt : k < (publications os).length := by
    by_contra hge
    rw [getElem?_eq_none (by omega)] at hk
    cases hk
  simp only [getElem?_map, hk, map_some] at hnum
  rw [getElem?_range' hlt] at hnum
  simp only [some.injEq] at hnum
  omega

theorem Owed.mem_pending {p : InFlight → Prop} {q : Deferred → Prop}
    (hn : Owed p q h n) : n ∈ h.pending := by
  rcases hn with hn | ⟨r, hr, hord, -⟩ | ⟨a, ha, hsource, hord, -⟩
  · simp [hn]
  · simp [hr, hord]
  · simp [ha, hsource, hord]

theorem Linear.claim_le_pending (hl : Linear os h)
    (hclaim : h.claim = some a) (hn : n ∈ h.pending) : a.ordinal ≤ n := by
  by_cases hidle : a.source = .idle
  · exact (hl.committed_lt (hl.idle_mem a hclaim hidle) hn).le
  have hflight : h.inFlight = [a.ordinal] := by
    simp [hclaim, hidle]
  rcases mem_append.1 hn with hn | hn
  · rw [hflight, mem_singleton] at hn
    exact hn.ge
  · exact (hl.inFlight_lt (hflight ▸ mem_singleton.2 rfl) hn).le

/-- The ordinal in flight was given out. -/
theorem Linear.claim_le_next (hl : Linear os h) (hclaim : h.claim = some a) :
    a.ordinal ≤ h.next := by
  by_cases hidle : a.source = .idle
  · apply hl.bounded
    exact mem_append_left _ (hl.idle_mem a hclaim hidle)
  · apply hl.pending_le
    simp [hclaim, hidle]

/-- **The predecessor of a boundary in flight has been committed.** -/
theorem Preceded.committed (hl : Linear os h) (hp : Preceded os h) {m : Nat}
    (hclaim : h.claim = some a) (hord : a.ordinal = m + 1) (hpub : (m + 1, true) ∈ publications os)
    (hm : m ≠ 1) : m ∈ commits os := by
  rcases hp.predecessor m hpub with hc | howed
  · rcases mem_cons.1 hc with rfl | hc
    · exact absurd rfl hm
    · exact hc
  · have hle := hl.claim_le_pending hclaim howed.mem_pending
    omega

end Viiper.Ports.FixedReportHistory
