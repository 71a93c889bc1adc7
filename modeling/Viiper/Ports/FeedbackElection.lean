import Mathlib.Data.List.MinMax
import Mathlib.Data.List.ReduceOption
import Viiper.Ports.FeedbackRuntime

/-!
# The election among the publisher slots

`selectWinner` scans the four slots twice: once for the newest target any slot
has seen, once for the best origin among the live frames of that target.  Both
scans keep the first strict maximum, so they are `List.argmax`.

The slots themselves only move forward: a slot is written for its own origin,
and only by a later frame.
-/

namespace Viiper.Ports.Feedback

open List

namespace Runtime

/-- The publications the slots hold. -/
def publications (runtime : Runtime) : List Publication :=
  runtime.slots.reduceOption

/-- A publication which may win at `now`: it is live and belongs to the
lexicographically greatest target over all slots. -/
structure Contends (runtime : Runtime) (now : UInt64) (p : Publication) : Prop where
  held : p ∈ runtime.publications
  live : p.frame.command ≠ commandStop
  fresh : p.frame.freshAt now
  newest : ∀ q ∈ runtime.publications, q.frame.target ≤ p.frame.target

/-- The publication entitled to the writer at `now`: the contender of the
highest origin. -/
structure Rightful (runtime : Runtime) (now : UInt64) (p : Publication) : Prop where
  contends : runtime.Contends now p
  highest : ∀ q, runtime.Contends now q → q.origin ≤ p.origin

/-! ## The newest target -/

def generations (p : Publication) : UInt64 × UInt64 :=
  (p.frame.deviceGeneration, p.frame.transportGeneration)

private theorem target_lt_iff (f g : Frame) : f.target < g.target ↔
      g.deviceGeneration > f.deviceGeneration ∨ (g.deviceGeneration = f.deviceGeneration ∧
          g.transportGeneration > f.transportGeneration) := by
  rw [Frame.target, Frame.target, Prod.Lex.toLex_lt_toLex]
  simp only [gt_iff_lt, UInt64.lt_iff_toNat_lt, UInt64.toNat_inj, eq_comm (a := f.deviceGeneration)]

/-- The first scan, started from any best publication so far. -/
private theorem foldl_findNewestRuntimeTarget
    (slots : List (Option Publication)) (best : Option Publication) :
    slots.foldl findNewestRuntimeTarget (best.map generations) = (slots.reduceOption.foldl
        (argAux fun b c => c.frame.target < b.frame.target)
        best).map generations := by
  induction slots generalizing best with
  | nil => rfl
  | cons slot slots ih =>
    cases slot with
    | none => exact ih best
    | some p =>
      rw [reduceOption_cons_of_some, foldl_cons, foldl_cons, ← ih]
      cases best with
      | none => rfl
      | some b =>
        simp only [findNewestRuntimeTarget, argAux, Option.map_some, generations, target_lt_iff]
        split <;> rfl

theorem newestTarget_eq (runtime : Runtime) : runtime.newestTarget =
      (runtime.publications.argmax (·.frame.target)).map generations :=
  foldl_findNewestRuntimeTarget runtime.slots none

/-! ## The winner -/

/-- What `considerRuntimeSlot` requires of a slot. -/
private def eligible (now deviceGeneration transportGeneration : UInt64) (p : Publication) : Bool :=
  !decide (p.frame.deviceGeneration ≠ deviceGeneration ∨
    p.frame.transportGeneration ≠ transportGeneration ∨
    p.frame.command = commandStop ∨ p.frame.freshAt now = false)

variable {runtime : Runtime} {publication p : Publication}

private theorem eligible_iff {now : UInt64} {newest : Publication} :
    eligible now newest.frame.deviceGeneration newest.frame.transportGeneration p = true ↔
      p.frame.target = newest.frame.target ∧ p.frame.command ≠ commandStop ∧
        p.frame.freshAt now := by
  simp only [eligible, Frame.target, toLex_inj, Prod.mk.injEq, UInt64.toNat_inj,
    Bool.not_eq_true', decide_eq_false_iff_not, not_or, not_not,
    Bool.not_eq_false, and_assoc]

/-- The second scan. -/
private theorem foldl_considerRuntimeSlot (now device transport : UInt64)
    (slots : List (Option Publication)) (best : Option Publication) :
    slots.foldl (considerRuntimeSlot now device transport) best =
      (slots.reduceOption.filter (eligible now device transport)).foldl
        (argAux fun b c => c.origin.toNat < b.origin.toNat) best := by
  induction slots generalizing best with
  | nil => rfl
  | cons slot slots ih =>
    cases slot with
    | none => exact ih best
    | some p =>
      rw [reduceOption_cons_of_some, foldl_cons, ih]
      by_cases hp : eligible now device transport p
      · rw [filter_cons_of_pos hp, foldl_cons]
        have hcond := of_decide_eq_false (Bool.not_eq_true' _ |>.mp hp)
        cases best with
        | none => simp only [considerRuntimeSlot, if_neg hcond, argAux]
        | some b =>
          simp only [considerRuntimeSlot, if_neg hcond, argAux, gt_iff_lt, UInt8.lt_iff_toNat_lt]
      · rw [filter_cons_of_neg hp]
        have hcond := of_decide_eq_true
          (by simpa only [eligible, Bool.not_eq_true, Bool.not_eq_false'] using hp)
        simp only [considerRuntimeSlot, if_pos hcond]

/-- **The elected publication is the rightful one.** -/
theorem selectWinner_rightful {now : UInt64} (h : runtime.selectWinner now = some p) :
    runtime.Rightful now p := by
  unfold selectWinner at h
  rw [newestTarget_eq] at h
  cases hnewest : runtime.publications.argmax (·.frame.target) with
  | none =>
    rw [hnewest] at h
    cases h
  | some newest =>
    rw [hnewest] at h
    have hwinner : p ∈ (runtime.publications.filter (eligible now newest.frame.deviceGeneration
          newest.frame.transportGeneration)).argmax (·.origin.toNat) := by
      have hscan := foldl_considerRuntimeSlot now
        newest.frame.deviceGeneration newest.frame.transportGeneration
        runtime.slots none
      exact hscan.symm.trans h
    have hmax := fun q hq => le_of_mem_argmax (a := q) hq hnewest
    obtain ⟨hheld, heligible⟩ := mem_filter.1 (argmax_mem hwinner)
    obtain ⟨htarget, hlive, hfresh⟩ := eligible_iff.1 heligible
    refine ⟨⟨hheld, hlive, hfresh, fun q hq => ?_⟩, fun q hq => ?_⟩
    · rw [htarget]
      exact hmax q hq
    · -- a contender passes the second scan's filter: its target is the newest
      have hqtarget : q.frame.target = newest.frame.target :=
        le_antisymm (hmax q hq.held) (hq.newest newest (argmax_mem hnewest))
      have hq' := mem_filter.2 ⟨hq.held, eligible_iff.2 ⟨hqtarget, hq.live, hq.fresh⟩⟩
      have hle := le_of_mem_argmax hq' hwinner
      exact UInt8.le_iff_toNat_le.2 hle

/-! ## The slots -/

private theorem publicationOriginValid_cases {o : PublicationOrigin}
    (h : publicationOriginValid o) :
    o = publicationOriginProfileEffect ∨ o = publicationOriginAudioHaptics ∨
      o = publicationOriginNativeGame ∨ o = publicationOriginTestPreview := by
  simp only [publicationOriginValid, Bool.and_eq_true, decide_eq_true_eq,
    UInt8.le_iff_toNat_le, ← UInt8.toNat_inj, publicationOriginProfileEffect,
    publicationOriginAudioHaptics, publicationOriginNativeGame,
    publicationOriginTestPreview, UInt8.toNat_ofNat] at h ⊢
  omega

/-- Every publication held is in the slot of some origin. -/
theorem mem_publications (h : p ∈ runtime.publications) :
    ∃ o, publicationOriginValid o ∧ runtime.slot o = some p := by
  have hmem : some p ∈ runtime.slots := reduceOption_mem_iff.1 h
  simp only [slots, mem_cons, not_mem_nil, or_false] at hmem
  rcases hmem with h | h | h | h
  · exact ⟨publicationOriginProfileEffect, by decide, h.symm⟩
  · exact ⟨publicationOriginAudioHaptics, by decide, h.symm⟩
  · exact ⟨publicationOriginNativeGame, by decide, h.symm⟩
  · exact ⟨publicationOriginTestPreview, by decide, h.symm⟩

/-- Writing one origin's slot leaves the others alone. -/
theorem slot_setSlot (runtime : Runtime) {o o' : PublicationOrigin} (ho : publicationOriginValid o)
    (ho' : publicationOriginValid o') (p : Publication) :
    (runtime.setSlot o p).slot o' = if o' = o then some p else runtime.slot o' := by
  rcases publicationOriginValid_cases ho with rfl | rfl | rfl | rfl <;>
    rcases publicationOriginValid_cases ho' with rfl | rfl | rfl | rfl <;> rfl

/-- Each slot holds a publication of its own origin. -/
def Filed (runtime : Runtime) : Prop :=
  ∀ o p, publicationOriginValid o → runtime.slot o = some p → p.origin = o

/-- The slot of `q`'s origin holds `q` or something later. -/
def Reached (runtime : Runtime) (q : Publication) : Prop :=
  publicationOriginValid q.origin ∧ ∃ p, runtime.slot q.origin = some p ∧
      (p = q ∨ q.frame.watermark < p.frame.watermark)

/-- What `Publish` does: it refuses, or files a valid publication which is
later than the one it replaces. -/
inductive PublishEffect (runtime : Runtime) (publication : Publication) : Runtime × Bool → Prop
  | refused : PublishEffect runtime publication (runtime, false)
  | filed : publicationOriginValid publication.origin →
      (∀ current, runtime.slot publication.origin = some current →
        current.frame.watermark < publication.frame.watermark) →
      PublishEffect runtime publication (runtime.setSlot publication.origin publication, true)

theorem publish_effect (runtime : Runtime) (publication : Publication) :
    PublishEffect runtime publication (runtime.publish publication) := by
  unfold publish
  split
  · exact .refused
  rename_i hvalid
  have horigin : publicationOriginValid publication.origin := by
    rw [Bool.not_eq_false, Publication.valid, Bool.and_eq_true] at hvalid
    exact hvalid.1
  split
  next hslot => exact .filed horigin fun current h => by rw [hslot] at h; cases h
  next current hslot =>
    split
    · exact .refused
    rename_i hnewer
    refine .filed horigin fun other h => ?_
    cases hslot.symm.trans h
    exact newer_watermark (Bool.not_eq_false _ ▸ hnewer)

theorem Filed.setSlot (h : runtime.Filed) (hvalid : publicationOriginValid publication.origin) :
    (runtime.setSlot publication.origin publication).Filed := by
  intro o p ho hp
  rw [slot_setSlot runtime hvalid ho] at hp
  split at hp
  next heq =>
    cases hp
    exact heq.symm
  · exact h o p ho hp

/-- A slot which has reached a publication is not set back by a later one. -/
theorem Reached.setSlot {q : Publication} (h : runtime.Reached q)
    (hvalid : publicationOriginValid publication.origin)
    (hlater : ∀ current, runtime.slot publication.origin = some current →
      current.frame.watermark < publication.frame.watermark) :
    (runtime.setSlot publication.origin publication).Reached q := by
  obtain ⟨hq, p, hp, hle⟩ := h
  refine ⟨hq, ?_⟩
  rw [slot_setSlot runtime hvalid hq]
  split
  next heq =>
    rw [heq] at hp
    refine ⟨publication, rfl, .inr ?_⟩
    rcases hle with rfl | hlt
    · exact hlater p hp
    · exact hlt.trans (hlater p hp)
  · exact ⟨p, hp, hle⟩

theorem reached_setSlot (runtime : Runtime) (hvalid : publicationOriginValid publication.origin) :
    (runtime.setSlot publication.origin publication).Reached publication := by
  refine ⟨hvalid, publication, ?_, .inl rfl⟩
  rw [slot_setSlot runtime hvalid hvalid, if_pos rfl]

theorem Filed.reached (h : runtime.Filed) (hp : p ∈ runtime.publications) : runtime.Reached p := by
  obtain ⟨o, ho, hslot⟩ := mem_publications hp
  obtain rfl : p.origin = o := h o p ho hslot
  exact ⟨ho, p, hslot, .inl rfl⟩

/-- A publication held by the runtime is one its slot has reached, or later. -/
theorem Reached.of_mem {q : Publication} (h : runtime.Reached q) (hfiled : runtime.Filed)
    (hp : p ∈ runtime.publications) (horigin : q.origin = p.origin) :
    p = q ∨ q.frame.watermark < p.frame.watermark := by
  obtain ⟨o, ho, hslot⟩ := mem_publications hp
  have hpo : p.origin = o := hfiled o p ho hslot
  obtain ⟨_, r, hr, hle⟩ := h
  rw [horigin, hpo, hslot] at hr
  cases hr
  exact hle

end Runtime

end Viiper.Ports.Feedback
