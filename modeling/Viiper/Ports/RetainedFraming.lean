import Viiper.Ports.RetainedPhases

/-!
# Sequence numbers of the command reader

The reader of a retained stream reserves the sequence number of a header before it reads
the rest of the command.  The reservation is settled on every way out of its loop: it
becomes the sequence of a queued submission, or it is given up just before the reader
answers itself, or the stream ends.
-/

namespace Viiper.Ports.Retained

open Verified Scheduler List Label

variable {cfg : Config} {epoch : Nat} {ops : List Op} {b b' : Board} {l l' : Label}
  {ls : List Label} {n o : Nat} {sequence : UInt32}

/-! ## Distinct sequences -/

/-- Reserved sequences and those of queued submissions. -/
def System.sequences (b : Board) : List UInt32 := b.framingSequences ++ b.all.map Slot.sequence

theorem map_sequence_rewrite {k : Nat} {g : Slot → Slot} (hg : ∀ x, Kept x (g x))
    (jobs : List Slot) : (rewriteJob k g jobs).map Slot.sequence = jobs.map Slot.sequence := by
  unfold rewriteJob
  rw [map_map]
  refine map_congr_left fun x _ => ?_
  show (if x.ingressOrdinal = k then g x else x).sequence = x.sequence
  split
  · exact (hg x).sequence
  · rfl

theorem map_sequence_sweep (scope : Scope) (jobs : List Slot) :
    ((jobs.filterMap (sweptSlot scope)).map Slot.sequence).Sublist (jobs.map Slot.sequence) := by
  induction jobs with
  | nil => exact List.Sublist.refl _
  | cons x rest ih =>
    rw [filterMap_cons]
    rcases sweptSlot_cases scope x with ⟨h, -⟩ | ⟨h, -⟩ | ⟨h, -⟩
    · rw [h]
      exact ih.cons_cons _
    · rw [h]
      exact ih.cons _
    · rw [h]
      exact ih.cons_cons _

/-- The sequences of the jobs after a move: no new one, or that which was enqueued. -/
theorem Move.sequences (hm : Move cfg b l b') :
    (b'.all.map Slot.sequence).Sublist (b.all.map Slot.sequence) ∨
      ∃ lane x, Enqueues cfg b l b' lane x ∧
        (b'.all.map Slot.sequence).Perm (x.sequence :: b.all.map Slot.sequence) := by
  unfold System.all
  cases hm.edits with
  | same hl =>
    rw [hl]
    exact .inl (List.Sublist.refl _)
  | rewrite hl hg =>
    rw [hl, allJobs_rewrite, map_sequence_rewrite hg]
    exact .inl (List.Sublist.refl _)
  | drop hl =>
    rw [hl, allJobs_drop]
    exact .inl (filter_sublist.map _)
  | sweep hl =>
    rw [hl, allJobs_sweep]
    exact .inl (map_sequence_sweep _ _)
  | @push lane x henq =>
    refine .inr ⟨lane, x, henq, ?_⟩
    rw [henq.lanes]
    exact (allJobs_push lane).map _

/-! ## What the reader does -/

def Label.command? : Label → Option Nat
  | .framed n _ | .replied n _ _ => some n
  | .enqueued _ _ command => command
  | _ => none

/-- How far the reader is with a command. -/
inductive Command
  | unseen
  | held (sequence : UInt32)
  | replying (sequence : UInt32)
  | settled
  | dropped

/-- How far it is with the latest one. -/
def ReaderPc.command : ReaderPc → Command
  | .reading => .settled
  | .stopped => .dropped
  | .framed h => .held h.seq
  | .unlinking sequence | .finishing sequence _ => .held sequence
  | .enqueueing e => .held e.sequence
  | .replying sequence _ => .replying sequence

/-- What a move does to the latest command, and to the reservations. -/
inductive Reads (b : Board) (l : Label) (b' : Board) : Prop
  | keep : l.command? = none → b'.reader.command = b.reader.command →
      b'.framingSequences = b.framingSequences → b'.commands = b.commands → Reads b l b'
  | stop : l.command? = none → b.reader.command = .settled → b'.reader.command = .dropped →
      b'.framingSequences = b.framingSequences → b'.commands = b.commands → Reads b l b'
  | frame {sequence : UInt32} : l = .framed (b.commands + 1) sequence →
      b.reader.command = .settled → b'.reader.command = .held sequence →
      b'.framingSequences = sequence :: b.framingSequences → b'.commands = b.commands + 1 →
        Reads b l b'
  | take {o : Nat} {sequence : UInt32} : l = .enqueued o sequence (some b.commands) →
      b.reader.command = .held sequence → b'.reader.command = .settled →
      b'.framingSequences = b.framingSequences.filter (· != sequence) →
      b'.commands = b.commands → Reads b l b'
  | finish {sequence : UInt32} : l.command? = none →
      b.reader.command = .held sequence → b'.reader.command = .replying sequence →
      b'.framingSequences = b.framingSequences.filter (· != sequence) →
      b'.commands = b.commands → Reads b l b'
  | reply {sequence : UInt32} {reply : Reply} : l = .replied b.commands sequence reply →
      b.reader.command = .replying sequence →
      b'.reader.command = .settled ∨ b'.reader.command = .dropped →
      b'.framingSequences = b.framingSequences → b'.commands = b.commands → Reads b l b'
  | abandon {sequence : UInt32} : l.command? = none →
      b.reader.command = .held sequence → b'.reader.command = .dropped →
      b'.framingSequences = b.framingSequences.filter (· != sequence) →
      b'.commands = b.commands → Reads b l b'

theorem hand_reserved {r : ReaderPc} (h : r.hand = .reserved sequence) :
    r.command = .held sequence := by
  cases r <;> cases h <;> rfl

/-- A reader which moves on quietly keeps its command, or stops between two. -/
theorem QuietReader.command {done : Prop} {r r' : ReaderPc} (h : QuietReader done r r') :
    r'.command = r.command ∨ (r.command = .settled ∧ r'.command = .dropped) := by
  rcases h with rfl | ⟨hne, hhand, -, -⟩
  · exact .inl rfl
  cases r with
  | stopped => exact absurd rfl hne
  | reading =>
    cases r' with
    | reading => exact .inl rfl
    | stopped => exact .inr ⟨rfl, rfl⟩
    | _ => cases hhand
  | replying sequence reply =>
    cases r' <;> cases hhand
    exact .inl rfl
  | _ => exact .inl (hand_reserved hhand)

theorem command_silent (h : l.silent) : l.command? = none := by
  cases l <;> first | rfl | cases h

theorem Move.reads (hm : Move cfg b l b') : Reads b l b' := by
  cases hm with
  | calm hl hcalm =>
    rcases hcalm.reader.command with hsame | ⟨hreading, hstopped⟩
    · exact .keep (command_silent hl) hsame hcalm.framingSequences hcalm.commands
    · exact .stop (command_silent hl) hreading hstopped hcalm.framingSequences hcalm.commands
  | @enqueue lane e requireReservation command reader _ _ _ hby =>
    rcases hby with ⟨rfl, rfl, rfl⟩ | ⟨rfl, rfl, hreader, rfl⟩
    · exact .keep rfl rfl rfl rfl
    · exact .take rfl (by rw [hreader]; rfl) rfl rfl rfl
  | sweep hby =>
    cases hby <;> exact .keep rfl rfl rfl rfl
  | unlinkRaw hby | unlinkStaged hby =>
    cases hby with
    | reader hr hhand =>
      exact .keep rfl ((hand_reserved hhand).trans (by rw [hr]; rfl)) rfl rfl
    | call => exact .keep rfl rfl rfl rfl
  | route _ hroute =>
    have hl : l.command? = none := by
      unfold System.route at hroute
      split at hroute <;> cases hroute <;> rfl
    obtain ⟨_, _, _, rfl⟩ := route_spec hroute
    exact .keep hl rfl rfl rfl
  | frame hr => exact .frame rfl (by rw [hr]; rfl) rfl rfl rfl
  | finish hr => exact .finish rfl (by rw [hr]; rfl) rfl rfl rfl
  | reply hr hnext =>
    refine .reply rfl (by rw [hr]; rfl) ?_ rfl rfl
    rcases hnext with rfl | rfl
    · exact .inl rfl
    · exact .inr rfl
  | abandon hl hhand =>
    exact .abandon (command_silent hl) (hand_reserved hhand) rfl rfl rfl
  | _ => exact .keep rfl rfl rfl rfl

/-! ## Reservations -/

/-- What a command in this state has reserved. -/
def Command.reserves : Command → List UInt32
  | .held sequence => [sequence]
  | _ => []

/-- Nothing is reserved but for the reader's own command. -/
structure Reserved (b : Board) : Prop where
  framing : b.framingSequences = b.reader.command.reserves
  counted : b.commands = 0 → b.reader.command = .settled ∨ b.reader.command = .dropped

theorem filter_singleton_ne (sequence : UInt32) :
    [sequence].filter (· != sequence) = ([] : List UInt32) := by
  simp

theorem Reserved.move (hm : Move cfg b l b') (h : Reserved b) : Reserved b' := by
  cases hm.reads with
  | keep _ hcommand hframing hcommands =>
    exact ⟨by rw [hframing, hcommand]; exact h.framing,
      by rw [hcommands, hcommand]; exact h.counted⟩
  | stop _ hbefore hafter hframing =>
    refine ⟨?_, fun _ => .inr hafter⟩
    rw [hframing, h.framing, hbefore, hafter]
    rfl
  | frame _ hbefore hafter hframing hcommands =>
    refine ⟨?_, fun h0 => absurd (hcommands.symm.trans h0) (Nat.succ_ne_zero _)⟩
    rw [hframing, h.framing, hbefore, hafter]
    rfl
  | take _ hbefore hafter hframing =>
    refine ⟨?_, fun _ => .inl hafter⟩
    rw [hframing, h.framing, hbefore, hafter]
    exact filter_singleton_ne _
  | finish _ hbefore hafter hframing hcommands =>
    refine ⟨?_, fun h0 => ?_⟩
    · rw [hframing, h.framing, hbefore, hafter]
      exact filter_singleton_ne _
    · rcases h.counted (hcommands.symm.trans h0) with hc | hc <;> rw [hbefore] at hc <;> cases hc
  | reply _ hbefore hafter hframing =>
    refine ⟨?_, fun _ => hafter⟩
    rw [hframing, h.framing, hbefore]
    rcases hafter with hafter | hafter <;> rw [hafter] <;> rfl
  | abandon _ hbefore hafter hframing =>
    refine ⟨?_, fun _ => .inr hafter⟩
    rw [hframing, h.framing, hbefore, hafter]
    exact filter_singleton_ne _

/-- The latest command is counted once the reader holds it. -/
theorem Reserved.pos (h : Reserved b) (hheld : b.reader.command.reserves ≠ [] ∨
    ∃ sequence, b.reader.command = .replying sequence) : 0 < b.commands := by
  rcases Nat.eq_zero_or_pos b.commands with h0 | h0
  · rcases h.counted h0 with hc | hc <;> rw [hc] at hheld <;> rcases hheld with hne | ⟨_, hc⟩
    · exact absurd rfl hne
    · cases hc
    · exact absurd rfl hne
    · cases hc
  · exact h0

theorem queued_eq_false : b.queued sequence = false ↔ sequence ∉ b.all.map Slot.sequence := by
  unfold System.queued
  rw [any_eq_false, mem_map]
  simp only [beq_iff_eq, not_exists, not_and]

theorem stamp_sequence (cfg : Config) (b : Board) (e : Envelope) :
    (b.stamp cfg e).sequence = e.sequence := by
  unfold Scheduler.stamp
  split <;> rfl

/-- **Reserved sequences and those of queued submissions stay distinct.** -/
theorem sequences_move (hm : Move cfg b l b') (h : b.sequences.Nodup) : b'.sequences.Nodup := by
  have hkeep : b'.framingSequences.Sublist b.framingSequences →
      (∀ o sequence command, l ≠ .enqueued o sequence command) → b'.sequences.Nodup := by
    intro hframing hl
    rcases hm.sequences with hsub | ⟨_, _, henq, -⟩
    · exact (hframing.append hsub).nodup h
    · obtain ⟨_, _, _, hl', -⟩ := henq.made
      exact absurd hl' (hl _ _ _)
  cases hm with
  | calm hl hcalm =>
    refine hkeep (hcalm.framingSequences ▸ List.Sublist.refl _) ?_
    rintro o sequence command rfl
    cases hl
  | @enqueue lane e requireReservation command reader _ _ hok =>
    have hun := b.refusal_eq_none cfg hok
    have hjobs : e.sequence ∉ b.all.map Slot.sequence := queued_eq_false.1 hun.unqueued
    -- The reservation is given up where it was needed, and there was none elsewhere.
    have hreserved : e.sequence ∉ (if requireReservation then
        b.framingSequences.filter (· != e.sequence) else b.framingSequences) := by
      cases requireReservation
      · simpa using hun.reserved
      · simp
    have hsub : (if requireReservation then b.framingSequences.filter (· != e.sequence)
        else b.framingSequences).Sublist b.framingSequences := by
      split
      · exact filter_sublist
      · exact List.Sublist.refl _
    have hpush : (allJobs (Function.update b.lanes lane (b.lanes lane ++
        [slotFor cfg (b.stamp cfg e) (b.nextOrdinal + 1)]))).Perm
        (slotFor cfg (b.stamp cfg e) (b.nextOrdinal + 1) :: b.all) := allJobs_push lane
    have hperm := ((hpush.map Slot.sequence).append_left (if requireReservation then
      b.framingSequences.filter (· != e.sequence) else b.framingSequences)).trans perm_middle
    refine hperm.nodup_iff.2 (nodup_cons.2 ⟨?_, ?_⟩)
    · show (b.stamp cfg e).sequence ∉ _
      rw [stamp_sequence, mem_append]
      exact not_or.2 ⟨hreserved, hjobs⟩
    · exact (hsub.append (List.Sublist.refl _)).nodup h
  | sweep hby | unlinkRaw hby | unlinkStaged hby =>
    exact hkeep (by cases hby <;> exact List.Sublist.refl _) nofun
  | route _ hroute =>
    have hl : ∀ o sequence command, l ≠ .enqueued o sequence command := by
      unfold System.route at hroute
      split at hroute <;> cases hroute <;> nofun
    obtain ⟨_, _, _, rfl⟩ := route_spec hroute
    exact hkeep (List.Sublist.refl _) hl
  | frame _ hframing hqueued =>
    refine nodup_cons.2 ⟨fun hmem => ?_, h⟩
    rcases mem_append.1 hmem with hmem | hmem
    · exact hframing hmem
    · exact queued_eq_false.1 hqueued hmem
  | finish => exact hkeep filter_sublist nofun
  | abandon hl =>
    refine hkeep filter_sublist ?_
    rintro o sequence command rfl
    cases hl
  | _ => exact hkeep (List.Sublist.refl _) nofun

/-! ## The story of a command -/

/-- How far the reader is with a command; they are counted from one. -/
def System.command (b : Board) (n : Nat) : Command :=
  if n = 0 ∨ b.commands < n then .unseen
  else if n < b.commands then .settled
  else b.reader.command

/-- What was said about a command. -/
def said (n : Nat) (ls : List Label) : List Label := ls.filter fun l => l.command? == some n

/-- The reader answered the command, or handed it to the scheduler. -/
inductive Settled (n : Nat) (sequence : UInt32) : List Label → Prop
  | replied (reply : Reply) : Settled n sequence [.framed n sequence, .replied n sequence reply]
  | enqueued (o : Nat) : Settled n sequence [.framed n sequence, .enqueued o sequence (some n)]

/-- What must have been said by now. -/
inductive Story (n : Nat) : Command → List Label → Prop
  | unseen : Story n .unseen []
  | held (sequence : UInt32) : Story n (.held sequence) [.framed n sequence]
  | replying (sequence : UInt32) : Story n (.replying sequence) [.framed n sequence]
  | settled {sequence : UInt32} {ls : List Label} : Settled n sequence ls → Story n .settled ls
  | dropped (sequence : UInt32) : Story n .dropped [.framed n sequence]
  | answered {sequence : UInt32} {ls : List Label} : Settled n sequence ls → Story n .dropped ls

theorem said_other (h : l.command? ≠ some n) : said n (ls ++ [l]) = said n ls := by
  unfold said
  rw [filter_append, filter_cons, if_neg (by simpa using h), filter_nil,
    append_nil]

theorem said_snoc (h : l.command? = some n) : said n (ls ++ [l]) = said n ls ++ [l] := by
  unfold said
  rw [filter_append, filter_cons, if_pos (by simpa using h), filter_nil]

theorem command_latest (h : 0 < b.commands) : b.command b.commands = b.reader.command := by
  unfold System.command
  rw [if_neg (by omega), if_neg (Nat.lt_irrefl _)]

/-- Only the latest command changes its state, while none is framed. -/
theorem command_other (hcommands : b'.commands = b.commands) (hn : n = 0 ∨ n ≠ b.commands) :
    b'.command n = b.command n := by
  unfold System.command
  rw [hcommands]
  by_cases hunseen : n = 0 ∨ b.commands < n
  · rw [if_pos hunseen, if_pos hunseen]
  have hlt : n < b.commands := by omega
  rw [if_neg hunseen, if_neg hunseen, if_pos hlt, if_pos hlt]

/-- The latest command moves on, and nothing is said about another. -/
theorem story_latest (hcommands : b'.commands = b.commands) (hpos : 0 < b.commands)
    (hl : ∀ k, l.command? = some k → k = b.commands)
    (hnext : Story b.commands b.reader.command (said b.commands ls) →
      Story b.commands b'.reader.command (said b.commands (ls ++ [l])))
    (h : Story n (b.command n) (said n ls)) : Story n (b'.command n) (said n (ls ++ [l])) := by
  by_cases hn : n = b.commands
  · subst hn
    rw [command_latest hpos] at h
    have hlatest : b'.command b.commands = b'.reader.command := by
      rw [← hcommands]
      exact command_latest (hcommands ▸ hpos)
    rw [hlatest]
    exact hnext h
  · rw [command_other hcommands (.inr hn), said_other fun hk => hn (hl n hk)]
    exact h

theorem story_frame (hl : l = .framed (b.commands + 1) sequence)
    (hbefore : b.reader.command = .settled) (hafter : b'.reader.command = .held sequence)
    (hcommands : b'.commands = b.commands + 1) (h : Story n (b.command n) (said n ls)) :
    Story n (b'.command n) (said n (ls ++ [l])) := by
  subst hl
  unfold System.command at h ⊢
  rw [hcommands]
  by_cases hnew : n = b.commands + 1
  · subst hnew
    rw [if_pos (.inr (Nat.lt_succ_self _))] at h
    rw [if_neg (by omega), if_neg (Nat.lt_irrefl _), hafter, said_snoc rfl]
    generalize said (b.commands + 1) ls = before at h ⊢
    cases h
    exact .held sequence
  · have hother : said n (ls ++ [.framed (b.commands + 1) sequence]) = said n ls :=
      said_other fun hk => hnew (Option.some.inj hk).symm
    rw [hother]
    by_cases hunseen : n = 0 ∨ b.commands < n
    · rw [if_pos hunseen] at h
      rw [if_pos (by omega)]
      exact h
    · rw [if_neg hunseen, hbefore, ite_self] at h
      rw [if_neg (by omega), if_pos (by omega)]
      exact h

/-- **A move of the board is a step in the story of every command.** -/
theorem story_move (hm : Move cfg b l b') (hr : Reserved b)
    (h : Story n (b.command n) (said n ls)) : Story n (b'.command n) (said n (ls ++ [l])) := by
  have hnone : ∀ k, l.command? = none → l.command? = some k → k = b.commands := by
    intro k h₁ h₂
    cases h₁.symm.trans h₂
  cases hm.reads with
  | keep hl hcommand _ hcommands =>
    have hsame : b'.command n = b.command n := by
      unfold System.command
      rw [hcommands, hcommand]
    rw [hsame, said_other (by rw [hl]; nofun)]
    exact h
  | stop hl hbefore hafter _ hcommands =>
    rcases Nat.eq_zero_or_pos b.commands with h0 | hpos
    · rw [command_other hcommands (by omega), said_other (by rw [hl]; nofun)]
      exact h
    · refine story_latest hcommands hpos (fun k => hnone k hl) (fun hs => ?_) h
      rw [said_other (by rw [hl]; nofun), hafter]
      rw [hbefore] at hs
      cases hs with
      | settled hs => exact .answered hs
  | frame hl hbefore hafter _ hcommands => exact story_frame hl hbefore hafter hcommands h
  | take hl hbefore hafter _ hcommands =>
    have hpos := hr.pos (.inl (by rw [hbefore]; nofun))
    refine story_latest hcommands hpos (fun k hk => ?_) (fun hs => ?_) h
    · rw [hl] at hk
      exact (Option.some.inj hk).symm
    · rw [hl, said_snoc rfl, hafter]
      rw [hbefore] at hs
      generalize said b.commands ls = before at hs ⊢
      cases hs
      exact .settled (.enqueued _)
  | finish hl hbefore hafter _ hcommands | abandon hl hbefore hafter _ hcommands =>
    have hpos := hr.pos (.inl (by rw [hbefore]; nofun))
    refine story_latest hcommands hpos (fun k => hnone k hl) (fun hs => ?_) h
    rw [said_other (by rw [hl]; nofun), hafter]
    rw [hbefore] at hs
    generalize said b.commands ls = before at hs ⊢
    cases hs
    constructor
  | reply hl hbefore hafter _ hcommands =>
    have hpos := hr.pos (.inr ⟨_, hbefore⟩)
    refine story_latest hcommands hpos (fun k hk => ?_) (fun hs => ?_) h
    · rw [hl] at hk
      exact (Option.some.inj hk).symm
    · rw [hl, said_snoc rfl]
      rw [hbefore] at hs
      generalize said b.commands ls = before at hs ⊢
      cases hs
      rcases hafter with hafter | hafter <;> rw [hafter]
      · exact .settled (.replied _)
      · exact .answered (.replied _)

/-! ## Submissions and their sequences -/

/-- The submission a label is about, and the sequence it gives. -/
def Label.job? : Label → Option (Nat × UInt32)
  | .sent o sequence _ | .unlinked o sequence => some (o, sequence)
  | _ => none

/-- A submission is always told of under the sequence it was enqueued with. -/
structure Words (ls : List Label) (b : Board) : Prop where
  jobs : ∀ x ∈ b.all, ∃ command, .enqueued x.ingressOrdinal x.sequence command ∈ ls
  told : ∀ l ∈ ls, ∀ o sequence, l.job? = some (o, sequence) →
    ∃ command, .enqueued o sequence command ∈ ls

theorem job_silent (h : l.silent) : l.job? = none := by
  cases l <;> first | rfl | cases h

/-- A response goes out, and a submission is unlinked, while its job is on the board. -/
theorem Move.job (hm : Move cfg b l b') (h : Inv cfg b) (hl : l.job? = some (o, sequence)) :
    ∃ x ∈ b.all, x.ingressOrdinal = o ∧ x.sequence = sequence := by
  cases hm with
  | calm hsilent | abandon hsilent =>
    cases (job_silent hsilent).symm.trans hl
  | @send a delivered hpc =>
    cases hl
    obtain ⟨x, hx, hord, -, -, hseq, -⟩ := h.hand.admission a (by rw [hpc]; rfl)
    exact ⟨x, hx, hord, hseq⟩
  | unlinkRaw _ hx | unlinkStaged _ hx =>
    cases hl
    exact ⟨_, (findJob_mem hx).1, rfl, rfl⟩
  | route _ hroute =>
    unfold System.route at hroute
    split at hroute <;> cases hroute <;> cases hl
  | _ => cases hl

theorem words_move (hm : Move cfg b l b') (hinv : Inv cfg b) (h : Words ls b) :
    Words (ls ++ [l]) b' := by
  have hmono : ∀ {k : Nat} {s : UInt32}, (∃ command, enqueued k s command ∈ ls) →
      ∃ command, enqueued k s command ∈ ls ++ [l] :=
    fun ⟨command, hmem⟩ => ⟨command, mem_append_left _ hmem⟩
  refine ⟨fun y hy => ?_, fun l' hmem o sequence hl' => ?_⟩
  · obtain ⟨lane, hlane⟩ := mem_allJobs.1 hy
    rcases hm.origin hlane with ⟨x, hx, hkept⟩ | henq
    · rw [hkept.ordinal, hkept.sequence]
      exact hmono (h.jobs x (mem_allJobs.2 ⟨lane, hx⟩))
    · obtain ⟨e, _, command, hl, _, _, _, rfl⟩ := henq.made
      refine ⟨command, mem_append_right _ (mem_singleton.2 ?_)⟩
      show enqueued (b.nextOrdinal + 1) (b.stamp cfg e).sequence command = l
      rw [hl, stamp_sequence]
  · rcases mem_append.1 hmem with hold | hnew
    · exact hmono (h.told l' hold o sequence hl')
    rw [mem_singleton.1 hnew] at hl'
    obtain ⟨x, hx, rfl, rfl⟩ := hm.job hinv hl'
    exact hmono (h.jobs x hx)

/-! ## Responses -/

/-- The submission was made from this command. -/
def Label.isFrom (n o : Nat) : Label → Bool
  | .enqueued k _ command => k == o && command == some n
  | _ => false

/-- A response to a command: the reader's own, or that to the submission it became. -/
def Label.answers (ls : List Label) (n : Nat) : Label → Bool
  | .replied m _ _ => m == n
  | .sent o _ _ => ls.any (Label.isFrom n o)
  | _ => false

/-- The responses to a command. -/
def answers (n : Nat) (ls : List Label) : List Label := ls.filter (Label.answers ls n)

/-- The sequence of a response. -/
def Label.sequence? : Label → Option UInt32
  | .replied _ sequence _ | .sent _ sequence _ => some sequence
  | _ => none

theorem mem_said : l ∈ said n ls ↔ l ∈ ls ∧ l.command? = some n := by
  unfold said
  rw [mem_filter, beq_iff_eq]

/-- A command which became no submission has only the reader's answers. -/
theorem answers_of_not_enqueued (h : ∀ o sequence, enqueued o sequence (some n) ∉ said n ls) :
    answers n ls = (said n ls).filter (Label.answers [] n) := by
  have hnone : ∀ o, ls.any (isFrom n o) = false := by
    intro o
    rw [any_eq_false]
    intro l hl hfrom
    cases l with
    | enqueued k sequence command =>
      simp only [isFrom, Bool.and_eq_true, beq_iff_eq] at hfrom
      obtain ⟨rfl, rfl⟩ := hfrom
      exact h _ _ (mem_said.2 ⟨hl, rfl⟩)
    | _ => cases hfrom
  unfold answers said
  rw [filter_filter]
  refine filter_congr fun l _ => ?_
  cases l with
  | replied m sequence reply => simp [Label.answers, Label.command?]
  | sent o sequence selection =>
    show ls.any (isFrom n o) = _
    rw [hnone o]
    rfl
  | _ => simp [Label.answers]

/-- A command which became a submission is answered by the scheduler. -/
theorem answers_of_enqueued (h : said n ls = [.framed n sequence, .enqueued o sequence (some n)]) :
    answers n ls = ls.filter (sends o) := by
  refine filter_congr fun l hl => ?_
  cases l with
  | replied m sequence' reply =>
    have hm : m ≠ n := by
      rintro rfl
      have hmem := mem_said.2 ⟨hl, (rfl : command? _ = some m)⟩
      rw [h] at hmem
      simp at hmem
    exact beq_eq_false_iff_ne.2 hm
  | sent k sequence' selection =>
    show ls.any (isFrom n k) = (k == o)
    by_cases hk : k = o
    · subst hk
      rw [beq_self_eq_true, any_eq_true]
      have hmem : enqueued k sequence (some n) ∈ said n ls := by
        rw [h]
        simp
      exact ⟨_, (mem_said.1 hmem).1, by simp [isFrom]⟩
    · rw [beq_eq_false_iff_ne.2 hk, any_eq_false]
      intro l' hl' hfrom
      cases l' with
      | enqueued k' sequence'' command =>
        simp only [isFrom, Bool.and_eq_true, beq_iff_eq] at hfrom
        obtain ⟨rfl, rfl⟩ := hfrom
        have hmem := mem_said.2 ⟨hl', (rfl : command? _ = some n)⟩
        rw [h] at hmem
        simp [hk] at hmem
      | _ => cases hfrom
  | _ => rfl

/-! ## Over whole runs -/

/-- What holds of the sequences and the commands along a run. -/
structure Sequenced (ls : List Label) (b : Board) : Prop where
  distinct : b.sequences.Nodup
  reserved : Reserved b
  story : ∀ n, Story n (b.command n) (said n ls)
  words : Words ls b

theorem sequenced_run (cfg : Config) (epoch : Nat) (ops : List Op) :
    Sequenced (labels cfg epoch ops) ((reached cfg epoch ops).view cfg) := by
  refine labels_rule (P := Sequenced) ?_ ?_ ops
  · have hall : ((newSystem cfg epoch).view cfg).all = [] := rfl
    refine ⟨nodup_nil, ⟨rfl, fun _ => .inl rfl⟩, fun n => ?_, fun x hx => ?_, nofun⟩
    · have hunseen : ((newSystem cfg epoch).view cfg).command n = .unseen :=
        if_pos (Nat.eq_zero_or_pos n)
      rw [hunseen]
      exact .unseen
    · rw [hall] at hx
      cases hx
  · intro ls b l b' hinv hm h
    exact ⟨sequences_move hm h.distinct, h.reserved.move hm,
      fun n => story_move hm h.reserved (h.story n), words_move hm hinv h.words⟩

theorem eq_of_countP_le_one {p : Label → Bool} (h : ls.countP p ≤ 1) (hl : l ∈ ls)
    (hl' : l' ∈ ls) (hp : p l) (hp' : p l') : l = l' := by
  rw [countP_eq_length_filter] at h
  have hm := mem_filter.2 ⟨hl, hp⟩
  have hm' := mem_filter.2 ⟨hl', hp'⟩
  rcases hf : ls.filter p with _ | ⟨a, _ | ⟨c, rest⟩⟩
  · rw [hf] at hm
    cases hm
  · rw [hf] at hm hm'
    rw [mem_singleton.1 hm, mem_singleton.1 hm']
  · rw [hf] at h
    simp at h

/-- Who answers a command: nobody yet, the reader, or the scheduler. -/
inductive AnsweredBy (n : Nat) (ls : List Label) : Prop
  | nobody : answers n ls = [] → AnsweredBy n ls
  | reader {sequence : UInt32} {reply : Reply} : .framed n sequence ∈ ls →
      answers n ls = [.replied n sequence reply] → AnsweredBy n ls
  | scheduler {o : Nat} {sequence : UInt32} : .framed n sequence ∈ ls →
      .enqueued o sequence (some n) ∈ ls → answers n ls = ls.filter (Label.sends o) →
        AnsweredBy n ls

theorem Settled.answeredBy (h : Settled n sequence (said n ls)) : AnsweredBy n ls := by
  have hmem : ∀ l ∈ said n ls, l ∈ ls := fun l hl => (mem_said.1 hl).1
  generalize hs : said n ls = story at h
  cases h with
  | replied reply =>
    have hframed : framed n sequence ∈ said n ls := by
      rw [hs]
      exact mem_cons_self
    have hanswers : answers n ls = [.replied n sequence reply] := by
      rw [answers_of_not_enqueued (by rw [hs]; simp), hs]
      simp [Label.answers]
    exact .reader (hmem _ hframed) hanswers
  | enqueued o =>
    have hframed : framed n sequence ∈ said n ls := by
      rw [hs]
      exact mem_cons_self
    have henqueued : Label.enqueued o sequence (some n) ∈ said n ls := by
      rw [hs]
      exact mem_cons_of_mem _ mem_cons_self
    exact .scheduler (hmem _ hframed) (hmem _ henqueued) (answers_of_enqueued hs)

theorem Story.answeredBy {c : Command} (h : Story n c (said n ls)) : AnsweredBy n ls := by
  have hheld : ∀ sequence, said n ls = [.framed n sequence] → AnsweredBy n ls := by
    intro sequence hs
    refine .nobody ?_
    rw [answers_of_not_enqueued (by rw [hs]; simp), hs]
    rfl
  generalize hs : said n ls = story at h
  cases h with
  | unseen =>
    refine .nobody ?_
    rw [answers_of_not_enqueued (by rw [hs]; simp), hs]
    rfl
  | held sequence | replying sequence | dropped sequence => exact hheld sequence hs
  | settled h | answered h => exact (hs ▸ h).answeredBy

/-- **Sequences in use are distinct, and every command has at most one response.** -/
structure Framing (cfg : Config) (ls : List Label) (s : SlotSystem) : Prop where
  distinct : (s.view cfg).sequences.Nodup
  /-- Nothing is reserved but for the command in the reader's hands. -/
  reserved : s.framingSequences = s.reader.command.reserves
  /-- A command whose header was reserved was at most answered or handed on, once. -/
  story : ∀ n, 0 < n → n ≤ s.commands →
    ∃ sequence, said n ls = [.framed n sequence] ∨ Settled n sequence (said n ls)
  /-- One which the reader is past was. -/
  settled : ∀ n, 0 < n → n < s.commands ∨ n = s.commands ∧ s.reader = .reading →
    ∃ sequence, Settled n sequence (said n ls)
  /-- It has at most one response, which carries its sequence. -/
  answered : ∀ n, (answers n ls).length ≤ 1 ∧ ∀ l ∈ answers n ls,
    ∃ sequence, .framed n sequence ∈ ls ∧ l.sequence? = some sequence
  /-- A submission is made once and answered at most once. -/
  slot : ∀ o, ls.countP (Label.enqueues o) ≤ 1 ∧
    ls.countP (Label.sends o) ≤ ls.countP (Label.enqueues o)
  /-- It is not answered once it was unlinked, nor was it before. -/
  unlinked : ∀ o sequence, .unlinked o sequence ∈ ls →
    ls.countP (Label.sends o) = 0 ∧ ∃ command, .enqueued o sequence command ∈ ls

theorem Phase.Fits.sent_le {p : Phase} {t : Tally} (h : p.Fits t) :
    t.enqueued ≤ 1 ∧ t.sent ≤ t.enqueued := by
  cases p <;> simp only [Phase.Fits] at h <;> rcases h with rfl | rfl | rfl | rfl <;> simp

theorem command_cases (b : Board) (hpos : 0 < n) (hle : n ≤ b.commands) :
    b.command n = .settled ∨ n = b.commands ∧ b.command n = b.reader.command := by
  unfold System.command
  rw [if_neg (by omega)]
  rcases Nat.lt_or_eq_of_le hle with hlt | heq
  · rw [if_pos hlt]
    exact .inl rfl
  · rw [if_neg (by omega)]
    exact .inr ⟨heq, rfl⟩

theorem ReaderPc.command_ne_unseen (r : ReaderPc) : r.command ≠ .unseen := by
  cases r <;> nofun

theorem Story.seen {c : Command} (h : Story n c ls) (hc : c ≠ .unseen) :
    ∃ sequence, ls = [.framed n sequence] ∨ Settled n sequence ls := by
  cases h with
  | unseen => exact absurd rfl hc
  | held sequence | replying sequence | dropped sequence => exact ⟨sequence, .inl rfl⟩
  | settled h | answered h => exact ⟨_, .inr h⟩

/-- A submission is unlinked before it is answered. -/
theorem Trans.unlinks {p p' : Phase} (h : Trans o p (.unlinked o sequence) p') :
    p'.withdrawn ∧ ∀ t, p.Fits t → t.sent = 0 := by
  cases h with
  | stay hne | leave hne => exact absurd rfl hne
  | _ => exact ⟨rfl, fun t ht => by rw [ht]⟩

/-- An unlinked submission had not been answered, and never is. -/
theorem unlinked_unanswered (h : .unlinked o sequence ∈ labels cfg epoch ops) :
    (labels cfg epoch ops).countP (sends o) = 0 := by
  obtain ⟨ls₁, ls₂, hls⟩ := append_of_mem h
  obtain ⟨ops₁, op, _, _, hls₁, hl, _⟩ := labels_split hls
  have hrep := reached_rep cfg epoch ops₁
  have hbook := book_run cfg epoch ops₁ o
  have hmove := phase_move (o := o) (step_refines hrep op).move hrep.inv
  rw [← hl] at hmove
  have hbefore : ls₁.countP (sends o) = 0 := by
    rw [hls₁]
    exact hmove.unlinks.2 _ hbook
  have hafter : ∀ l ∈ ls₂, ¬l.sends o :=
    never_after (S := fun p => p.withdrawn)
      (fun _ _ _ hp ht => ⟨(ht.withdrawn hp).1, (ht.withdrawn hp).2.1⟩) hls
      fun _ _ ht => ht.unlinks.1
  rw [hls, countP_append, countP_cons, hbefore, countP_eq_zero.2 hafter]
  rfl

theorem framing_reached (cfg : Config) (epoch : Nat) (ops : List Op) :
    Framing cfg (labels cfg epoch ops) (reached cfg epoch ops) := by
  have hseq := sequenced_run cfg epoch ops
  have hslot : ∀ o, (labels cfg epoch ops).countP (enqueues o) ≤ 1 ∧
      (labels cfg epoch ops).countP (sends o) ≤
        (labels cfg epoch ops).countP (enqueues o) :=
    fun o => (book_run cfg epoch ops o).sent_le
  refine ⟨hseq.distinct, hseq.reserved.framing, fun n hpos hle => ?_, fun n hpos hpast => ?_,
    fun n => ?_, hslot, fun o sequence hmem => ?_⟩
  · refine (hseq.story n).seen ?_
    rcases command_cases ((reached cfg epoch ops).view cfg) hpos hle with hc | ⟨-, hc⟩
    · rw [hc]
      nofun
    · rw [hc]
      exact ReaderPc.command_ne_unseen _
  · have hsettled : ((reached cfg epoch ops).view cfg).command n = .settled := by
      have hle : n ≤ (reached cfg epoch ops).commands := by omega
      rcases command_cases ((reached cfg epoch ops).view cfg) hpos hle with hc | ⟨heq, hc⟩
      · exact hc
      rcases hpast with hlt | ⟨-, hreading⟩
      · exact absurd heq (Nat.ne_of_lt hlt)
      rw [hc]
      show (reached cfg epoch ops).reader.command = _
      rw [hreading]
      rfl
    have hstory := hseq.story n
    rw [hsettled] at hstory
    cases hstory with
    | settled h => exact ⟨_, h⟩
  · cases (hseq.story n).answeredBy with
    | nobody hnone =>
      rw [hnone]
      exact ⟨Nat.zero_le _, nofun⟩
    | @reader sequence reply hframed hreply =>
      rw [hreply]
      refine ⟨Nat.le_refl _, fun l hl => ?_⟩
      rw [mem_singleton.1 hl]
      exact ⟨sequence, hframed, rfl⟩
    | @scheduler o sequence hframed henqueued hsent =>
      rw [hsent, ← countP_eq_length_filter]
      refine ⟨Nat.le_trans (hslot o).2 (hslot o).1, fun l hl => ?_⟩
      obtain ⟨hmem, hsends⟩ := mem_filter.1 hl
      cases l with
      | sent k sequence' selection =>
        obtain rfl : k = o := beq_iff_eq.1 hsends
        obtain ⟨command, hsource⟩ :=
          hseq.words.told (.sent k sequence' selection) hmem k sequence' rfl
        -- The submission was enqueued once, so under one sequence.
        have hsame := eq_of_countP_le_one (hslot k).1 hsource henqueued
          (beq_self_eq_true k) (beq_self_eq_true k)
        cases hsame
        exact ⟨sequence, hframed, rfl⟩
      | _ => cases hsends
  · exact ⟨unlinked_unanswered hmem, hseq.words.told _ hmem o sequence rfl⟩

end Viiper.Ports.Retained
