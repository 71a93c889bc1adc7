import Mathlib.Data.List.Nodup
import Viiper.Ports.ImportCallbacks

/-!
# What the callers of a reset get

A reset capability is settled once.  The call which drives the reset returns the
outcome it stored; a call which presents the same capability meanwhile waits for
the channel of that reset and then reads the *last* reset of the session.  So it
gets the outcome of its own reset as long as no other one was settled between
the closing of the channel and the read: `Patient` says that of a run, and
`overtakenRun` is a run which is not patient, in which a caller gets the result
of another capability.
-/

namespace Viiper.Ports.ImportSession

open Verified.Run List Authority
open Retained (ImportLease ImportResetLease)

variable {s s' : Session} {o : Option Settlement} {outs : List Settlement}
  {i : Nat} {w : World} {act : Bool}

/-! ## One outcome for each capability -/

/-- The resets of a session and the outcomes settled so far.  Generations number
the capabilities, so a reset issued or under way is settled in none of them. -/
structure Resets (s : Session) (outs : List Settlement) : Prop where
  stored : s.lastReset.valid → (s.lastReset, s.lastResetResult, s.lastResetErr) ∈ outs
  own : ∀ out ∈ outs, out.2.1.lease = out.1
  bounded : ∀ out ∈ outs, out.1.resetGeneration ≤ s.nextResetGeneration
  fresh : s.issuedReset.valid ∨ s.activeReset.valid →
    ∀ out ∈ outs, out.1.resetGeneration < s.nextResetGeneration
  issued : s.issuedReset.valid → s.issuedReset.resetGeneration = s.nextResetGeneration
  active : s.activeReset.valid → s.activeReset.resetGeneration = s.nextResetGeneration
  apart : s.activeReset.valid → s.issuedReset.valid = false
  once : (outs.map Prod.fst).Nodup

theorem Resets.of_view (h : Resets s outs) (hview : s'.resetView = s.resetView) :
    Resets s' outs := by
  simp only [Session.resetView, Prod.mk.injEq] at hview
  obtain ⟨hnext, hissued, hactive, hlast, hresult, herr, -, -, -⟩ := hview
  constructor
  · rw [hlast, hresult, herr]; exact h.stored
  · exact h.own
  · rw [hnext]; exact h.bounded
  · rw [hissued, hactive, hnext]; exact h.fresh
  · rw [hissued, hnext]; exact h.issued
  · rw [hactive, hnext]; exact h.active
  · rw [hactive, hissued]; exact h.apart
  · exact h.once

theorem invalid_empty : ({} : ImportResetLease).valid = false := rfl

theorem Resets.settle (h : Resets s outs) (hvalid : s.activeReset.valid)
    (state : ImportResetState) (err : Errors)
    (hnext : s'.nextResetGeneration = s.nextResetGeneration)
    (hissued : s'.issuedReset = s.issuedReset) (hactive : s'.activeReset = {})
    (hlast : s'.lastReset = s.activeReset)
    (hresult : s'.lastResetResult = ⟨s.activeReset, state⟩) (herr : s'.lastResetErr = err) :
    Resets s' (outs ++ [(s.activeReset, ⟨s.activeReset, state⟩, err)]) := by
  have hidle : ¬ s'.activeReset.valid := by rw [hactive, invalid_empty]; simp
  have hnone : ¬ s'.issuedReset.valid := by rw [hissued, h.apart hvalid]; simp
  constructor
  · intro _
    rw [hlast, hresult, herr]
    simp
  · intro out hout
    rcases mem_append.1 hout with hout | hout
    · exact h.own out hout
    · rw [mem_singleton.1 hout]
  · intro out hout
    rw [hnext]
    rcases mem_append.1 hout with hout | hout
    · exact h.bounded out hout
    · rw [mem_singleton.1 hout]
      exact Nat.le_of_eq (h.active hvalid)
  · intro hbusy
    rcases hbusy with hbusy | hbusy
    · exact absurd hbusy hnone
    · exact absurd hbusy hidle
  · exact fun hbusy => absurd hbusy hnone
  · exact fun hbusy => absurd hbusy hidle
  · exact fun hbusy => absurd hbusy hidle
  · rw [map_append, nodup_append]
    refine ⟨h.once, by simp, ?_⟩
    -- every earlier outcome is of an earlier generation
    intro r hr r' hr'
    obtain ⟨out, hout, rfl⟩ := mem_map.1 hr
    obtain rfl : r' = s.activeReset := by simpa using hr'
    intro heq
    have hlt := h.fresh (.inr hvalid) out hout
    rw [heq, h.active hvalid] at hlt
    exact Nat.lt_irrefl _ hlt

theorem Resets.changed (h : Resets s outs) (hch : Changed s o s') :
    Resets s' (outs ++ o.toList) := by
  cases hch with
  | same _ _ hreset | latches _ _ _ _ hreset | closes _ _ _ _ _ _ hreset =>
    simpa using h.of_view hreset
  | issues r hr hvalid hissued hactive hopen =>
    have hidle : ¬ s.activeReset.valid := by rw [hactive, invalid_empty]; simp
    rw [Option.toList_none, append_nil]
    refine ⟨h.stored, h.own, fun out hout => Nat.le_succ_of_le (h.bounded out hout),
      fun _ out hout => Nat.lt_succ_of_le (h.bounded out hout), fun _ => hr, ?_, ?_, h.once⟩
    all_goals exact fun hbusy => absurd hbusy hidle
  | begins hopen hactive hvalid =>
    rw [Option.toList_none, append_nil]
    exact ⟨h.stored, h.own, h.bounded, fun _ => h.fresh (.inl hvalid),
      fun hbusy => absurd hbusy Bool.false_ne_true, fun _ => h.issued hvalid,
      fun _ => invalid_empty, h.once⟩
  | resetSafe k hk hvalid hopen => exact h.settle hvalid .safe [] rfl rfl rfl rfl rfl rfl
  | resetQuarantined j err hvalid hdone hopen =>
    have hview := finishResetQuarantined_view j s s.activeReset err
    simp only [Session.resetView, Prod.mk.injEq] at hview
    obtain ⟨hnext, hissued, hactive, hlast, hresult, herr, -, -, -⟩ := hview
    exact h.settle hvalid .quarantined err hnext hissued hactive hlast hresult herr

theorem resets_new (lease : ImportLease) (owner : Nat) :
    Resets { lease := lease, ownerReference := owner } [] := by
  constructor <;> simp [invalid_empty]

/-! ## What a caller of a reset expects -/

/-- A call which waits holds the channel of its own reset while that is under
way; from then on its reset is the last one.  A result which was returned is the
outcome of the capability presented. -/
def Expects (i : Nat) (s : Session) (outs : List Settlement) : Pc → Prop
  | .visit j (.resetWait chan r) =>
    j = i → r.valid ∧ ((s.activeReset = r ∧ chan = s.resetDone) ∨ s.lastReset = r)
  | .done (.reset j r result err) =>
    j = i → result.state ≠ .invalid → (r, result, err) ∈ outs
  | _ => True

theorem Pc.Silent.expects {pc : Pc} (h : pc.Silent) (i : Nat) (s : Session)
    (outs : List Settlement) : Expects i s outs pc := by
  cases pc with
  | visit j v => exact h.elim
  | done r =>
    cases r with
    | reset j r result err => exact fun _ hstate => absurd h hstate
    | _ => trivial
  | _ => trivial

/-- The change settles no reset but `r`. -/
def Settles (o : Option Settlement) (r : ImportResetLease) : Prop :=
  ∀ out ∈ o, out.1 = r

variable {r : ImportResetLease} {lastGeneration lastToken identity : UInt64}
  {ops : List Op} {op : Op} {chan : Option Nat}

/-- A change takes a waiting call's reset no further than to its end. -/
theorem waiting_changed (hvalid : r.valid)
    (h : (s.activeReset = r ∧ chan = s.resetDone) ∨ s.lastReset = r) (hch : Changed s o s')
    (hown : Settles o r) : (s'.activeReset = r ∧ chan = s'.resetDone) ∨ s'.lastReset = r := by
  have hkeep : s'.resetView = s.resetView →
      (s'.activeReset = r ∧ chan = s'.resetDone) ∨ s'.lastReset = r := by
    intro hview
    simp only [Session.resetView, Prod.mk.injEq] at hview
    obtain ⟨-, -, hactive, hlast, -, -, hdone, -, -⟩ := hview
    rw [hactive, hdone, hlast]
    exact h
  cases hch with
  | same _ _ hreset | latches _ _ _ _ hreset | closes _ _ _ _ _ _ hreset => exact hkeep hreset
  | issues r' hr hvalid' hissued hactive hopen => exact h
  | begins hopen hactive hissued =>
    rcases h with ⟨heq, -⟩ | hlast
    · rw [← heq, hactive, invalid_empty] at hvalid
      simp at hvalid
    · exact .inr hlast
  | resetSafe k hk hactive hopen => exact .inr (hown _ rfl)
  | resetQuarantined j err hactive hdone hopen =>
    have hview := finishResetQuarantined_view j s s.activeReset err
    simp only [Session.resetView, Prod.mk.injEq] at hview
    exact .inr (hview.2.2.2.1.trans (hown _ rfl))

/-- A result which was returned stays the outcome; a waiting call loses its reset
only to another one which is settled meanwhile. -/
theorem Expects.changed {pc : Pc} (h : Expects i s outs pc) (hch : Changed s o s')
    (hown : ∀ chan r, pc = .visit i (.resetWait chan r) → Settles o r) :
    Expects i s' (outs ++ o.toList) pc := by
  cases pc with
  | visit j v =>
    cases v with
    | resetWait chan r =>
      intro hj
      subst hj
      obtain ⟨hvalid, hwait⟩ := h rfl
      exact ⟨hvalid, waiting_changed hvalid hwait hch (hown chan r rfl)⟩
    | _ => trivial
  | done r =>
    cases r with
    | reset j r result err =>
      intro hj hstate
      exact mem_append_left _ (h hj hstate)
    | _ => trivial
  | _ => trivial

theorem expected_silent {e : Effect} (h : e.pc.Silent) : e.Known Expects i outs :=
  known_silent (fun _ => Pc.Silent.expects) h

theorem beginReset_expected {identity : Nat} (hresets : Resets s outs) :
    (beginReset identity w i s r).Known Expects i outs := by
  have hrefused : (Effect.go (.done (.reset i r ⟨r, .invalid⟩ [.resetRejected])) s).Known
      Expects i outs := expected_silent rfl
  simp only [beginReset]
  split
  · exact hrefused
  rename_i hauth
  have hvalid : r.valid := by
    simp only [not_or, Bool.not_eq_true', Bool.not_eq_false] at hauth
    exact hauth.1
  split
  next hcached =>
    intro j t outs' ht hj hstate
    rw [(ht hj.symm).2, hcached.1]
    rw [hcached.1] at hvalid
    exact mem_append_left _ (hresets.stored hvalid)
  split
  · exact hrefused
  split
  · split
    · exact hrefused
    rename_i hsame
    intro j t outs' ht hj
    rw [(ht hj.symm).1]
    exact ⟨hvalid, .inl ⟨not_not.1 hsame, rfl⟩⟩
  split
  · exact hrefused
  split
  · exact hrefused
  · exact expected_silent trivial

theorem Method.enter_expected {identity : Nat} {m : Method} (hresets : Resets s outs) :
    (m.enter identity w act i s).Known Expects i outs := by
  cases m with
  | reset j r => exact beginReset_expected hresets
  | reserve | issueReset => exact fun _ _ _ _ => trivial
  | _ =>
    simp only [Method.enter, beginClose, beginCommit, ImportSession.abort,
      ImportSession.abortPrepared, ImportSession.beginParkedSchedulerBuild,
      ImportSession.finishParkedSchedulerBuild, ImportSession.failParkedSchedulerBuild,
      exactSection]
    intro k t outs' _
    repeat' split
    all_goals trivial

/-- A caller which wakes up: its channel is closed, so its reset is the last. -/
theorem resetWait_expected (hchan : Channels s) (hresets : Resets s outs)
    (h : Expects i s outs (.visit i (.resetWait chan r))) :
    ((Visitor.resetWait chan r).step w act i s).Known Expects i outs := by
  obtain ⟨hvalid, hwait⟩ := h rfl
  cases chan with
  | none => exact expected_silent rfl
  | some k =>
    by_cases hlive : w.live
    · by_cases hmem : k ∈ s.closedResets
      · simp only [Visitor.step, awaitReset, hlive, hmem, Bool.not_true, Bool.false_eq_true,
          if_false, if_true]
        intro j t outs' ht hj hstate
        have hlast : s.lastReset = r := by
          rcases hwait with ⟨hactive, hdone⟩ | hlast
          · rw [← hactive] at hvalid
            exact absurd hmem (hchan.opened hvalid k hdone.symm)
          · exact hlast
        rw [(ht hj.symm).2, ← hlast]
        rw [← hlast] at hvalid
        exact mem_append_left _ (hresets.stored hvalid)
      · simp only [Visitor.step, awaitReset, hlive, hmem, Bool.not_true, Bool.false_eq_true,
          if_false]
        intro j t outs' ht hj
        rw [(ht hj.symm).1]
        exact ⟨hvalid, hwait⟩
    · simp only [Visitor.step, awaitReset, hlive, Bool.not_false, if_true]
      exact expected_silent rfl

theorem Visitor.step_expected {v : Visitor} (hchan : Channels s) (hresets : Resets s outs)
    (h : Expects i s outs (.visit i v)) : (v.step w act i s).Known Expects i outs := by
  cases v with
  | resetWait chan r => exact resetWait_expected hchan hresets h
  | closeWait chan lease reason =>
    simp only [Visitor.step]
    split
    · exact fun _ _ _ _ => trivial
    unfold closeAfterReset
    intro k t outs' _
    repeat' split
    all_goals trivial
  | _ =>
    simp only [Visitor.step]
    intro k t outs' _
    repeat' split
    all_goals trivial

theorem Outcome.expected {e : Effect} (h : Outcome i s e) : e.Known Expects i outs := by
  cases h with
  | same _ hreset hclose hpc hnote => exact expected_silent hpc.silent
  | resetSafe k hk hvalid hopen =>
    intro j t outs' ht hj _
    rw [(ht hj.symm).2]
    simp [Note.settledAt]
  | resetQuarantined err hvalid hdone hopen =>
    intro j t outs' ht hj _
    rw [(ht hj.symm).2]
    simp [Note.settledAt, finishResetQuarantined]
  | _ => exact fun _ _ _ _ => trivial

/-! ## Along a run -/

variable {a first : Authority} {evs : List Step}

/-- The note settles a reset of the session while a call at this point still
waits for another one. -/
def Note.overtakes : Note → Pc → Bool
  | .settled i r _ _, .visit j (.resetWait _ r') => j == i && r != r'
  | _, _ => false

/-- The step settles no reset while a caller of another one still waits. -/
def Patient (_ : List Step) (a : Authority) (op : Authority.Op) : Prop :=
  ∀ c, (a.step op).2.overtakes (a.calls c) = false

theorem overtakes_settles {note : Note}
    (h : note.overtakes (.visit i (.resetWait chan r)) = false) : Settles (note.settledAt i) r := by
  intro out hout
  cases note with
  | settled j r' result err =>
    simp only [Note.settledAt] at hout
    split at hout
    next hj =>
      obtain rfl : (r', result, err) = out := by simpa using hout
      simpa [Note.overtakes, hj] using h
    · simp at hout
  | _ => simp [Note.settledAt] at hout

/-- The invariant with the resets of every session. -/
structure Settled (first : Authority) (evs : List Step) (a : Authority) : Prop where
  inv : Inv first evs a
  channels : ∀ i s, a.sessions i = some s → Channels s
  resets : ∀ i s, a.sessions i = some s → Resets s (settlements i evs)
  unissued : ∀ i, a.sessions i = none → settlements i evs = []

theorem unissued_settled (hs : a.sessions i = none)
    (hinv : Inv first evs a) : (a.step op).2.settledAt i = none := by
  have hturn := step_turn a op
  generalize a.step op = res at hturn
  have hother : ∀ {j t}, a.sessions j = some t → j ≠ i := by
    rintro j t ht rfl
    simp [hs] at ht
  cases hturn with
  | drives c j t d w hc ht =>
    exact (Driver.step_outcome (hinv.phased.held ht hc).2).settledAt_other (hother ht)
  | enters c j t m w hc hm ht =>
    exact m.enter_visited.unsettled.settledAt i
  | visits c j t v w hc ht =>
    exact v.step_visited.unsettled.settledAt i
  | moves _ c pc note hold hnew hpc hvisit hnote =>
    rcases hnote with rfl | ⟨answer, rfl⟩ <;> rfl
  | _ => rfl

theorem Settled.step (h : Settled first evs a) (op : Authority.Op) :
    Settled first (evs ++ [event step a op]) (a.step op).1 := by
  have hsession : ∀ i s', (a.step op).1.sessions i = some s' → Channels s' ∧
      Resets s' (settlements i (evs ++ [event Authority.step a op])) := by
    intro i s' hs'
    rw [settlements_snoc, event_out]
    cases hs : a.sessions i with
    | some s =>
      obtain ⟨s'', hs'', hch⟩ := h.inv.changed hs op
      rw [hs'] at hs''
      obtain rfl := Option.some.inj hs''
      exact ⟨(h.channels i s hs).changed hch, (h.resets i s hs).changed hch⟩
    | none =>
      obtain ⟨lease, owner, rfl⟩ := new_session hs hs'
      rw [unissued_settled hs h.inv, h.unissued i hs]
      exact ⟨channels_new lease owner, resets_new lease owner⟩
  refine ⟨h.inv.step op, fun i s hs => (hsession i s hs).1,
    fun i s hs => (hsession i s hs).2, fun i hs' => ?_⟩
  cases hs : a.sessions i with
  | some s =>
    obtain ⟨s', hs'', -⟩ := h.inv.changed hs op
    simp [hs'] at hs''
  | none =>
    rw [settlements_snoc, event_out, unissued_settled hs h.inv, h.unissued i hs]
    rfl

theorem settled_new
    (hnew : newRetainedImportAuthority identity lastToken lastGeneration = .ok first) :
    Settled first [] first := by
  have hnone : ∀ i s, first.sessions i ≠ some s := fun i s => by
    rw [(new_idle hnew).1 i]
    simp
  exact ⟨inv_new hnew, fun i s hs => absurd hs (hnone i s), fun i s hs => absurd hs (hnone i s),
    fun _ _ => rfl⟩

theorem expects_step (h : Settled first evs a) (hexpects : Aware Expects evs a)
    (hpatient : Patient evs a op) : Aware Expects (evs ++ [event step a op]) (a.step op).1 := by
  refine hexpects.step (fun _ => Pc.Silent.expects) h.inv op ?_ ?_ ?_ ?_
  · intro c i s s' outs hch hknows
    refine hknows.changed hch fun chan r hc => ?_
    have hwaits := hpatient c
    rw [hc] at hwaits
    exact overtakes_settles hwaits
  · intro c i s m w _ hs
    exact Method.enter_expected (h.resets i s hs)
  · intro c i s v w hc hs
    have hknows := hexpects c i
    rw [hc, hs] at hknows
    exact Visitor.step_expected (h.channels i s hs) (h.resets i s hs) hknows
  · intro c i s d w hc hs
    exact (Driver.step_outcome (h.inv.phased.held hs hc).2).expected

/-- In a patient run every caller knows what its reset came to. -/
theorem expects_run
    (hnew : newRetainedImportAuthority identity lastToken lastGeneration = .ok first)
    (hpatient : Allowed step Patient [] first ops) :
    Aware Expects (trace step first ops) (final step first ops) := by
  have hidle : Aware Expects [] first := fun c i => by
    rw [(new_idle hnew).2 c]
    exact Informed.of_all (by intro _ _; trivial) _
  have hrun := history_induction (P := fun evs a => Settled first evs a ∧ Aware Expects evs a)
    ⟨settled_new hnew, hidle⟩
    (fun _ _ op h hstep => ⟨h.1.step op, expects_step h.1 h.2 hstep⟩) ops hpatient
  exact hrun.2

/-- A terminal result which a reset returned is the outcome of its capability. -/
theorem returned_reset
    (hnew : newRetainedImportAuthority identity lastToken lastGeneration = .ok first)
    (hpatient : Allowed step Patient [] first ops) {e : Step}
    (he : e ∈ trace step first ops) {c : Nat} {result : ImportResetResult} {err : Errors}
    (hout : e.out = .returned c (.reset i r result err)) (hstate : result.state ≠ .invalid) :
    (r, result, err) ∈ settlements i (trace step first ops) := by
  obtain ⟨before, op, after, rfl, rfl⟩ := mem_trace he
  have hknows := expects_run hnew (allowed_append.1 hpatient).1 c i
  rw [returned_stands hout] at hknows
  rw [trace_append, settlements, filterMap_append]
  apply mem_append_left
  cases hs : (final step first before).sessions i with
  | none =>
    rw [hs] at hknows
    exact hknows { lease := {}, ownerReference := 0 } _ rfl hstate
  | some s =>
    rw [hs] at hknows
    exact hknows rfl hstate

/-- The capabilities of all outcomes differ, and each outcome is of its own. -/
theorem Settled.once (h : Settled first evs a) (i : Nat) :
    ((settlements i evs).map Prod.fst).Nodup ∧
      ∀ out ∈ settlements i evs, out.2.1.lease = out.1 := by
  cases hs : a.sessions i with
  | none => simp [h.unissued i hs]
  | some s => exact ⟨(h.resets i s hs).once, (h.resets i s hs).own⟩

/-- **Callers of a reset get the result of their own capability**, in runs in
which no reset is settled while a caller of another one still waits.  In every
run a capability is settled at most once. -/
theorem reset_returns_own_result {identity lastToken lastGeneration : UInt64}
    (hnew : newRetainedImportAuthority identity lastToken lastGeneration = .ok first)
    (ops : List Authority.Op) :
    (∀ i, ((settlements i (trace Authority.step first ops)).map Prod.fst).Nodup) ∧
    (Allowed Authority.step Patient [] first ops →
      ∀ i, ∀ e ∈ trace Authority.step first ops, ∀ c r result err,
        e.out = .returned c (.reset i r result err) → result.state ≠ .invalid →
        result.lease = r ∧ (r, result, err) ∈ settlements i (trace Authority.step first ops) ∧
        ∀ e' ∈ trace Authority.step first ops, ∀ c' result' err',
          e'.out = .returned c' (.reset i r result' err') → result'.state ≠ .invalid →
          result' = result ∧ err' = err) := by
  have hsettled :=
    history_run (P := Settled first) (settled_new hnew) (fun _ _ op h => h.step op) ops
  refine ⟨fun i => (hsettled.once i).1, fun hpatient i e he c r result err hout hstate => ?_⟩
  have hmem := returned_reset hnew hpatient he hout hstate
  refine ⟨(hsettled.once i).2 _ hmem, hmem, fun e' he' c' result' err' hout' hstate' => ?_⟩
  have hmem' := returned_reset hnew hpatient he' hout' hstate'
  have heq := inj_on_of_nodup_map (hsettled.once i).1 hmem' hmem rfl
  simpa using heq

/-! ## Runs of few goroutines

A run of goroutines below `n` is patient when it is patient for those, which
can be evaluated. -/

/-- The goroutine which acts. -/
def Authority.Op.goroutine : Authority.Op → Option Nat
  | .call c _ | .advance c _ => some c
  | .store .. => none

/-- A goroutine stands still while another one acts. -/
theorem step_calls_other {c : Nat} (hop : op.goroutine ≠ some c) :
    (a.step op).1.calls c = a.calls c := by
  have hmove : ∀ {c'} (pc : Pc), c' ≠ c → Function.update a.calls c' pc c = a.calls c :=
    fun pc hne => Function.update_of_ne (Ne.symm hne) pc a.calls
  cases op with
  | store i admissionOpen activation => rfl
  | call c' m =>
    have hne : c' ≠ c := fun h => hop (congrArg some h)
    simp only [step]
    split
    · exact hmove _ hne
    · rfl
  | advance c' w =>
    have hne : c' ≠ c := fun h => hop (congrArg some h)
    have hvisit : ∀ i s pc, (a.visit w c' i s pc).1.calls c = a.calls c := by
      intro i s pc
      unfold visit
      split
      · rcases issueReset_cases a w c' i s _ with ⟨err, heq⟩ | ⟨-, -, -, -, heq⟩
        · rw [heq]; exact hmove _ hne
        · rw [heq]; exact hmove _ hne
      · exact hmove _ hne
      · exact hmove _ hne
      · exact hmove _ hne
      · rfl
    simp only [step, advance]
    split
    · rfl
    · exact hmove _ hne
    · exact hmove _ hne
    · exact hmove _ hne
    · exact hmove _ hne
    · unfold claim
      split
      · exact hmove _ hne
      · exact hmove _ hne
    · split
      · exact hvisit _ _ _
      · exact hmove _ hne
    · split
      · exact hvisit _ _ _
      · rfl
    · split
      · exact hvisit _ _ _
      · rfl

/-- `Patient` for the goroutines below `n`, and only those act. -/
def PatientBelow (n : Nat) (_ : List Step) (a : Authority) (op : Authority.Op) : Prop :=
  (∀ c ∈ op.goroutine, c < n) ∧ ∀ c < n, (a.step op).2.overtakes (a.calls c) = false

instance PatientBelow.decidable (n : Nat) (evs : List Step) (a : Authority)
    (op : Authority.Op) : Decidable (PatientBelow n evs a op) :=
  inferInstanceAs (Decidable ((∀ c ∈ op.goroutine, c < n) ∧
    ∀ c < n, (a.step op).2.overtakes (a.calls c) = false))

theorem overtakes_idle (note : Note) : note.overtakes .idle = false := by
  cases note <;> rfl

theorem patient_of_below {n : Nat} :
    ∀ {evs : List Step} {a : Authority}, (∀ c, n ≤ c → a.calls c = .idle) →
      Allowed step (PatientBelow n) evs a ops →
      Allowed step Patient evs a ops := by
  induction ops with
  | nil => exact fun _ _ => trivial
  | cons op ops ih =>
    intro evs a hidle hrun
    obtain ⟨⟨hbelow, hpatient⟩, hrest⟩ := hrun
    refine ⟨fun c => ?_, ih (fun c hc => ?_) hrest⟩
    · by_cases hc : c < n
      · exact hpatient c hc
      · rw [hidle c (Nat.le_of_not_lt hc)]
        exact overtakes_idle _
    · rw [step_calls_other fun hop => Nat.not_lt_of_le hc (hbelow c hop)]
      exact hidle c hc

/-! ## Two callers of one capability -/

def firstReset : ImportResetLease := ⟨smallLease, 1, 1⟩

def secondReset : ImportResetLease := ⟨smallLease, 2, 2⟩

/-- Goroutine 0 issues a reset. -/
def issueRun : List Op := [.call 0 (.issueReset 0 smallLease), .advance 0 {}, .advance 0 {}]

/-- Goroutine `c` presents a capability, and drives it or waits. -/
def presentRun (c : Nat) (r : ImportResetLease) : List Op :=
  [.call c (.reset 0 r), .advance c {}]

/-- Goroutine 0 drives its reset to a safe end and returns. -/
def safeRun (r : ImportResetLease) : List Op :=
  [.advance 0 {}, .advance 0 {}, .advance 0 {},
    .advance 0 { restart := .returned ⟨r, .safe⟩ [] }, .advance 0 {}, .advance 0 {},
    .advance 0 {}]

/-- Goroutine 1 waits for the reset which goroutine 0 drives, and reads its
result. -/
def sharedRun : List Authority.Op :=
  claimRun ++ issueRun ++ presentRun 0 firstReset ++ presentRun 1 firstReset ++
    safeRun firstReset ++ [.advance 1 {}]

theorem sharedRun_own_result : newRetainedImportAuthority 1 0 0 = .ok smallAuthority ∧
      ∃ result err, (event Authority.step (final Authority.step smallAuthority sharedRun)
          (.advance 1 {})).out = .returned 1 (.reset 0 firstReset result err) ∧
        result.state = .safe ∧ result.lease = firstReset := by
  have hnew : newRetainedImportAuthority 1 0 0 = .ok smallAuthority := rfl
  have hpatient : Allowed step Patient [] smallAuthority (sharedRun ++ [.advance 1 {}]) :=
    patient_of_below (n := 2) (fun _ _ => rfl) (by decide +kernel)
  have hout : (event step (final step smallAuthority sharedRun)
      (.advance 1 {})).out = .returned 1 (.reset 0 firstReset ⟨firstReset, .safe⟩ []) := by
    decide +kernel
  have hmem : event step (final step smallAuthority sharedRun)
      (.advance 1 {}) ∈ trace step smallAuthority (sharedRun ++ [.advance 1 {}]) := by
    rw [trace_snoc]
    exact mem_append_right _ (mem_singleton.2 rfl)
  have hown := (reset_returns_own_result hnew (sharedRun ++ [.advance 1 {}])).2 hpatient 0 _ hmem
    1 firstReset ⟨firstReset, .safe⟩ [] hout (by decide)
  exact ⟨hnew, _, _, hout, rfl, hown.1⟩

/-- … but goroutine 0 has reset the import once more before goroutine 1 runs
again. -/
def overtakenRun : List Authority.Op :=
  claimRun ++ issueRun ++ presentRun 0 firstReset ++ presentRun 1 firstReset ++
    safeRun firstReset ++ issueRun ++ presentRun 0 secondReset ++ safeRun secondReset ++
    [.advance 1 {}]

/-- The caller of the first capability gets the result of the second. -/
theorem overtakenRun_foreign_result : newRetainedImportAuthority 1 0 0 = .ok smallAuthority ∧
      (event Authority.step (final Authority.step smallAuthority overtakenRun)
          (.advance 1 {})).out = .returned 1 (.reset 0 firstReset ⟨secondReset, .safe⟩ []) ∧
      secondReset ≠ firstReset := by
  refine ⟨rfl, ?_, ?_⟩ <;> decide +kernel

end Viiper.Ports.ImportSession
