import Viiper.Verified.Run
import Viiper.Ports.ImportAuthority
import Viiper.Ports.ImportTenure

/-!
# The table of active imports

Every session of an authority is in one of the phases of `ImportTenure`, with
at most one goroutine driving it, and the active table lists exactly the
sessions which have not been released.
-/

namespace Viiper.Ports.ImportSession

open Verified (Sole)
open Verified.Run Function Option Authority
open Retained (ImportLease ImportResetLease)

/-! ## The kinds of steps -/

/-- What one step of the system can be. -/
inductive Turn (a : Authority) : Op → Authority × Note → Prop
  /-- a call returns -/
  | returns (c : Nat) (w : World) (r : Return) (hc : a.calls c = .done r) :
      Turn a (.advance c w) (a.moveTo c .idle, .returned c r)
  /-- a goroutine moves without touching a session -/
  | moves (op : Op) (c : Nat) (pc : Pc) (note : Note)
      (hold : ∀ i, (a.calls c).drives i = none) (hnew : ∀ i, pc.drives i = none)
      (hpc : ∀ r, pc = .done r → (∃ m, a.calls c = .entry m ∧ r = m.foreign) ∨
        ∃ d o err, r = .reserve d o err)
      (hvisit : ∀ i v, pc ≠ .visit i v)
      (hnote : note = .quiet ∨ ∃ answer, note = .ownerIdentity answer) :
      Turn a op (a.moveTo c pc, note)
  | idles (op : Op) : Turn a op (a, .quiet)
  | claims (c deviceID owner ownerID : Nat) (w : World)
      (hc : a.calls c = .claim deviceID owner ownerID)
      (hfree : a.claimAvailability deviceID = []) :
      Turn a (.advance c w) (a.claim c deviceID owner ownerID, .quiet)
  /-- the first section of a method -/
  | enters (c i : Nat) (s : Session) (m : Method) (w : World) (hc : a.calls c = .entry m)
      (hm : m.session = some i) (hs : a.sessions i = some s) :
      Turn a (.advance c w) (a.apply c i s (m.enter a.identity w (a.isActive i s) i s))
  | visits (c i : Nat) (s : Session) (v : Visitor) (w : World)
      (hc : a.calls c = .visit i v) (hs : a.sessions i = some s) :
      Turn a (.advance c w) (a.apply c i s (v.step w (a.isActive i s) i s))
  | drives (c i : Nat) (s : Session) (d : Driver) (w : World)
      (hc : a.calls c = .drive i d) (hs : a.sessions i = some s) :
      Turn a (.advance c w) (a.apply c i s (d.step w (a.isActive i s) i s))
  | issues (c i : Nat) (s : Session) (lease : ImportLease) (w : World)
      (hc : a.calls c = .entry (.issueReset i lease)) (hs : a.sessions i = some s) :
      Turn a (.advance c w) (a.issueReset w c i s lease, .quiet)
  | stores (i : Nat) (admissionOpen : Bool) (activation : Activation) :
      Turn a (.store i admissionOpen activation) (a.setAdmission i admissionOpen activation, .quiet)

theorem turn_entry (a : Authority) {c : Nat} {m : Method} {w : World}
    (hc : a.calls c = .entry m) : Turn a (.advance c w) (a.advance c w) := by
  by_cases hreserve : ∃ deviceID owner, m = .reserve deviceID owner
  · obtain ⟨deviceID, owner, rfl⟩ := hreserve
    simp only [advance, hc]
    refine .moves _ c _ .quiet (by simp [hc]) ?_ ?_ ?_ (.inl rfl)
    · intro i
      unfold beginReserve
      split
      · rfl
      split
      · rfl
      split <;> rfl
    rotate_left
    · intro i v
      unfold beginReserve
      split
      · simp
      split
      · simp
      split <;> simp
    · intro r hr
      right
      unfold beginReserve at hr
      split at hr
      · exact ⟨_, _, _, (Pc.done.inj hr).symm⟩
      split at hr
      · exact ⟨_, _, _, (Pc.done.inj hr).symm⟩
      split at hr
      · simp at hr
      · exact ⟨_, _, _, (Pc.done.inj hr).symm⟩
  · cases hm : m.session with
    | none => cases m <;> simp [Method.session] at hm hreserve
    | some i =>
      have hforeign : (∀ j, (Pc.done m.foreign).drives j = none) := fun _ => rfl
      cases hs : a.sessions i with
      | none =>
        have hstep : a.advance c w = (a.moveTo c (.done m.foreign), .quiet) := by
          cases m <;> simp_all [advance, Method.session]
        rw [hstep]
        refine .moves _ c _ .quiet (by simp [hc]) hforeign ?_ (by simp) (.inl rfl)
        exact fun r hr => .inl ⟨m, hc, (Pc.done.inj hr).symm⟩
      | some s =>
        by_cases hissue : ∃ lease, m = .issueReset i lease
        · obtain ⟨lease, rfl⟩ := hissue
          have hstep : a.advance c w = (a.issueReset w c i s lease, .quiet) := by
            simp [advance, hc, Method.session, hs, visit]
          rw [hstep]
          exact .issues c i s lease w hc hs
        · have hstep : a.advance c w =
              a.apply c i s (m.enter a.identity w (a.isActive i s) i s) := by
            cases m <;> simp_all [advance, Method.session, visit]
          rw [hstep]
          exact .enters c i s m w hc hm hs

/-- **The kinds of steps.** -/
theorem step_turn (a : Authority) (op : Op) : Turn a op (a.step op) := by
  cases op with
  | call c m =>
    simp only [step]
    split
    next hc =>
      exact .moves _ c _ .quiet (by simp [hc]) (fun _ => rfl) (by simp) (by simp) (.inl rfl)
    · exact .idles _
  | store i admissionOpen activation => exact .stores i admissionOpen activation
  | advance c w =>
    simp only [step]
    cases hc : a.calls c with
    | idle => simpa only [advance, hc] using Turn.idles _
    | done r => simpa only [advance, hc] using Turn.returns c w r hc
    | entry m => exact turn_entry a hc
    | identity deviceID owner =>
      simp only [advance, hc]
      refine .moves _ c _ _ (by simp [hc]) ?_ ?_ ?_ (.inr ⟨_, rfl⟩)
      · intro i
        simp only [afterIdentity]
        split <;> rfl
      rotate_left
      · intro i v
        simp only [afterIdentity]
        split <;> simp
      · intro r hr
        simp only [afterIdentity] at hr
        split at hr
        · simp at hr
        · exact .inr ⟨_, _, _, (Pc.done.inj hr).symm⟩
    | observe deviceID owner ownerID =>
      simp only [advance, hc]
      refine .moves _ c _ _ (by simp [hc]) ?_ ?_ ?_ (.inl rfl)
      · intro i
        split <;> rfl
      rotate_left
      · intro i v
        split <;> simp
      · intro r hr
        split at hr
        · simp at hr
        · exact .inr ⟨_, _, _, (Pc.done.inj hr).symm⟩
    | claim deviceID owner ownerID =>
      simp only [advance, hc]
      by_cases hfree : a.claimAvailability deviceID = []
      · exact .claims c deviceID owner ownerID w hc hfree
      simp only [claim, if_neg hfree]
      refine .moves _ c _ _ (by simp [hc]) (fun _ => rfl) ?_ (by simp) (.inl rfl)
      exact fun r hr => .inr ⟨_, _, _, (Pc.done.inj hr).symm⟩
    | visit i v =>
      simp only [advance, hc]
      cases hs : a.sessions i with
      | none => exact .idles _
      | some s => exact .visits c i s v w hc hs
    | drive i d =>
      simp only [advance, hc]
      cases hs : a.sessions i with
      | none => exact .idles _
      | some s => exact .drives c i s d w hc hs

/-! ## The invariant -/

/-- One observed step of the system. -/
abbrev Step := Event Authority Authority.Op Note

/-- The story of session `i` in a history. -/
def story (i : Nat) (evs : List Step) : List Callback := evs.filterMap fun e => e.out.about i

theorem story_snoc (i : Nat) (evs : List Step) (e : Step) :
    story i (evs ++ [e]) = story i evs ++ (e.out.about i).toList := by
  unfold story
  cases h : e.out.about i <;> simp [h]

/-- The phase of a key: no session yet, or a session in its phase. -/
def Phase (σ : List Callback) (d : Option Driver) : Option Session → Prop
  | none => d = none ∧ σ = []
  | some s => Good s σ d

/-- Every key is in a phase, with the goroutine which drives it. -/
def Phased (evs : List Step) (a : Authority) : Prop :=
  ∀ i, ∃ d, Sole Pc.drives a.calls i d ∧ Phase (story i evs) d (a.sessions i)

/-- The active table lists exactly the sessions which have not been released. -/
structure Listed (a : Authority) : Prop where
  owner : ∀ deviceID i, a.active deviceID = some i →
    ∃ s, a.sessions i = some s ∧ s.lease.deviceID = deviceID ∧ s.released = false
  listed : ∀ i s, a.sessions i = some s → s.released = false → a.active s.lease.deviceID = some i

/-- The capabilities issued so far, in the order of their sessions. -/
structure Numbered (first a : Authority) : Prop where
  issued : ∀ i, a.sessions i ≠ none ↔ i < a.issued
  token : a.nextImportToken = first.nextImportToken + a.issued
  generation : a.nextSessionGeneration = first.nextSessionGeneration + a.issued
  tokenBound : a.nextImportToken ≤ lastCounter
  generationBound : a.nextSessionGeneration ≤ lastCounter
  lease : ∀ i s, a.sessions i = some s → s.lease.importToken = first.nextImportToken + i + 1 ∧
      s.lease.sessionGeneration = first.nextSessionGeneration + i + 1

variable {a : Authority} {evs : List Step} {c i : Nat} {s : Session} {e : Effect}

theorem Listed.act (h : Listed a) (hs : a.sessions i = some s) : a.isActive i s = !s.released := by
  unfold isActive
  cases hrel : s.released with
  | false => simp [h.listed i s hs hrel]
  | true =>
    have hne : a.active s.lease.deviceID ≠ some i := by
      intro hact
      obtain ⟨s', hs', -, hkept⟩ := h.owner _ _ hact
      rw [hs] at hs'
      obtain rfl := some.inj hs'
      simp [hrel] at hkept
    simpa using hne

attribute [local simp] Authority.apply

@[simp] theorem apply_sessions_self : (a.apply c i s e).1.sessions i = some e.session := by simp

theorem apply_sessions_ne {j : Nat} (h : j ≠ i) :
    (a.apply c i s e).1.sessions j = a.sessions j := by simp [h]

theorem Listed.apply (h : Listed a) (hs : a.sessions i = some s)
    (hk : Keeps i s (a.isActive i s) e) : Listed (a.apply c i s e).1 := by
  have hact : ∀ deviceID, (a.apply c i s e).1.active deviceID =
      if e.frees ∧ deviceID = s.lease.deviceID then none else a.active deviceID := by
    intro deviceID
    cases hf : e.frees with
    | false => simp [hf]
    | true =>
      by_cases hd : deviceID = s.lease.deviceID <;>
        simp [hf, hd, update_of_ne]
  constructor
  · intro deviceID j hj
    rw [hact] at hj
    split at hj
    · simp at hj
    rename_i hfree
    obtain ⟨s', hs', hdev, hkept⟩ := h.owner _ _ hj
    by_cases hji : j = i
    · subst hji
      rw [hs] at hs'
      obtain rfl := some.inj hs'
      refine ⟨e.session, by simp, by rw [hk.lease, hdev], ?_⟩
      rw [hk.stays (by simpa [hdev] using hfree), hkept]
    · exact ⟨s', by rw [apply_sessions_ne hji, hs'], hdev, hkept⟩
  · intro j s' hs' hkept
    rw [hact]
    by_cases hji : j = i
    · subst hji
      rw [apply_sessions_self] at hs'
      obtain rfl := some.inj hs'
      have hnofree : e.frees = false := by
        cases hf : e.frees with
        | false => rfl
        | true => rw [(hk.frees hf).2] at hkept; simp at hkept
      rw [hk.stays hnofree] at hkept
      rw [hk.lease, if_neg (by simp [hnofree]), h.listed _ _ hs hkept]
    · rw [apply_sessions_ne hji] at hs'
      have hlisted := h.listed _ _ hs' hkept
      have hnot : ¬(e.frees ∧ s'.lease.deviceID = s.lease.deviceID) := by
        rintro ⟨hf, hdev⟩
        -- the freed device was that of session `i`
        have hactive := (hk.frees hf).1
        simp only [isActive, beq_iff_eq] at hactive
        rw [hdev, hactive] at hlisted
        exact hji (some.inj hlisted).symm
      rw [if_neg hnot, hlisted]

variable {first : Authority} {deviceID : Nat} {op : Op} {σ : List Callback}
  {d : Option Driver}

theorem Phased.good (h : Phased evs a) (hs : a.sessions i = some s) :
    ∃ d, Sole Pc.drives a.calls i d ∧ Good s (story i evs) d := by
  have hphase := h i
  rw [hs] at hphase
  exact hphase

/-- The call which drives a session is the one its phase names. -/
theorem Phased.held {d : Driver} (h : Phased evs a) (hs : a.sessions i = some s)
    (hc : a.calls c = .drive i d) : Sole Pc.drives a.calls i (some d) ∧ d.Held s (story i evs) := by
  obtain ⟨d', hsole, hgood⟩ := h.good hs
  obtain rfl := hsole.eq_some (show (a.calls c).drives i = some d by rw [hc, drives_drive])
  exact ⟨hsole, hgood⟩

/-- A step of goroutine `c` about session `i`, whose own phase is `d`
afterwards. -/
theorem Phased.apply (h : Phased evs a)
    (hsessions : (a.step op).1.sessions = update a.sessions i (some e.session))
    (hcalls : (a.step op).1.calls = update a.calls c e.pc) (hnote : (a.step op).2 = e.note)
    (hk : Keeps i s (a.isActive i s) e) (hother : ∀ j, j ≠ i → (a.calls c).drives j = none)
    (hphase : ∃ d, Sole Pc.drives (update a.calls c e.pc) i d ∧
      Good e.session (story i evs ++ e.note.told) d) :
    Phased (evs ++ [event step a op]) (a.step op).1 := by
  intro j
  rw [story_snoc, event_out, hnote, hcalls, hsessions]
  by_cases hj : j = i
  · subst hj
    obtain ⟨d, hsole, hgood⟩ := hphase
    refine ⟨d, hsole, ?_⟩
    rw [update_self, hk.told]
    exact hgood
  · obtain ⟨d, hsole, hphase⟩ := h j
    refine ⟨d, hsole.keep (hother j hj) (hk.pc j hj), ?_⟩
    rw [update_of_ne hj, hk.silent j hj]
    simpa using hphase

theorem Phased.quiet (h : Phased evs a) {pc : Pc} {note : Note}
    (hstep : a.step op = (a.moveTo c pc, note)) (hold : ∀ j, (a.calls c).drives j = none)
    (hnew : ∀ j, pc.drives j = none) (hnote : ∀ j, note.about j = none) :
    Phased (evs ++ [event step a op]) (a.step op).1 := by
  intro j
  obtain ⟨d, hsole, hphase⟩ := h j
  refine ⟨d, ?_, ?_⟩
  · rw [hstep]
    exact hsole.keep (hold j) (hnew j)
  · rw [story_snoc, event_out, hstep]
    simpa [hnote j, moveTo] using hphase

/-- The phase of a session after a call which does not drive it. -/
theorem Visited.phase (hv : Visited i s (a.isActive i s) e) (hc : (a.calls c).drives i = none)
    (hsole : Sole Pc.drives a.calls i d) (hgood : Good s σ d) :
    ∃ d', Sole Pc.drives (update a.calls c e.pc) i d' ∧ Good e.session (σ ++ e.note.told) d' := by
  rcases hv.good hgood with ⟨hpc, hgood'⟩ | ⟨rfl, hleads⟩
  · exact ⟨d, hsole.keep hc hpc, hgood'⟩
  · exact ⟨_, hsole.take c e.pc, hleads⟩

/-- A step of a goroutine which drives no session. -/
theorem Phased.visit (h : Phased evs a) (hs : a.sessions i = some s)
    (hres : a.step op = a.apply c i s e) (hc : ∀ j, (a.calls c).drives j = none)
    (hv : Visited i s (a.isActive i s) e) : Phased (evs ++ [event step a op]) (a.step op).1 := by
  obtain ⟨d, hsole, hgood⟩ := h.good hs
  exact h.apply (by rw [hres]; rfl) (by rw [hres]; rfl) (by rw [hres]; rfl) hv.keeps
    (fun j _ => hc j) (hv.phase (hc i) hsole hgood)

/-- A session's phase does not read the admission or the issued reset. -/
theorem Good.congr (h : Good s σ d) (admissionOpen : Bool) (activation : Activation)
    (generation : Nat) (issued : ImportResetLease) :
    Good { s with admissionOpen := admissionOpen, activation := activation,
                  nextResetGeneration := generation, issuedReset := issued } σ d := by
  cases d with
  | none => exact h
  | some d =>
    cases d with
    | abortPrepared stage | reset _ stage | close _ stage => cases stage <;> exact h
    | commit stage =>
      cases stage with
      | unpublishedFence next | unpublishedIngress next | unpublishedScheduler next =>
        cases next <;> exact h
      | _ => exact h

/-- `issueReset` refuses, or issues the next reset of a claimed session. -/
theorem issueReset_cases (a : Authority) (w : World) (c i : Nat) (s : Session)
    (lease : ImportLease) :
    (∃ err, a.issueReset w c i s lease = a.moveTo c (.done (.issueReset i {} err))) ∨
      (lease = s.lease ∧ lease.valid ∧ a.resetBlocked i s = false ∧
        a.nextResetToken ≠ lastCounter ∧
        a.issueReset w c i s lease =
          { (a.apply c i s (.go (.done (.issueReset i
                ⟨lease, a.nextResetToken + 1, s.nextResetGeneration + 1⟩ []))
              { s with
                nextResetGeneration := s.nextResetGeneration + 1
                issuedReset :=
                  ⟨lease, a.nextResetToken + 1, s.nextResetGeneration + 1⟩ })).1 with
            nextResetToken := a.nextResetToken + 1 }) := by
  unfold issueReset
  split
  · exact .inl ⟨_, rfl⟩
  rename_i hauth
  split
  · exact .inl ⟨_, rfl⟩
  rename_i hcounter
  split
  · exact .inl ⟨_, rfl⟩
  rename_i hblocked
  simp only [Session.authenticates, not_or, Bool.not_eq_true', Bool.not_eq_false,
    Bool.and_eq_true, beq_iff_eq] at hauth hcounter
  refine .inr ⟨hauth.1.1.2, hauth.1.1.1, by simpa using hblocked, hcounter.1, ?_⟩
  simp

theorem Phased.step (h : Phased evs a) (hl : Listed a)
    (hn : ∀ i, a.sessions i ≠ none ↔ i < a.issued) (op : Op) :
    Phased (evs ++ [event step a op]) (a.step op).1 := by
  have hturn := step_turn a op
  generalize hres : a.step op = res at hturn
  cases hturn with
  | returns c w r hc =>
    rw [← hres]
    exact h.quiet hres (by simp [hc]) (fun _ => rfl) (fun _ => rfl)
  | moves _ c pc note hold hnew hpc hvisit hnote =>
    rw [← hres]
    refine h.quiet hres hold hnew fun j => ?_
    rcases hnote with rfl | ⟨answer, rfl⟩ <;> rfl
  | idles =>
    intro j
    rw [story_snoc, event_out, hres]
    simpa [Note.about] using h j
  | claims c deviceID owner ownerID w hc hfree =>
    intro j
    rw [story_snoc, event_out, hres]
    obtain ⟨d, hsole, hphase⟩ := h j
    have hnone : ∀ k, (a.calls c).drives k = none := by simp [hc]
    simp only [claim, if_pos hfree, Note.about, toList_none, List.append_nil]
    refine ⟨d, hsole.keep (hnone j) rfl, ?_⟩
    by_cases hj : j = a.issued
    · have hfresh : a.sessions j = none := by
        by_contra hsome
        have := (hn j).1 hsome
        omega
      rw [hfresh] at hphase
      obtain ⟨rfl, hσ⟩ := hphase
      rw [hj, update_self]
      rw [hj] at hσ
      exact ⟨⟨rfl, rfl, rfl⟩, rfl, rfl, hσ⟩
    · rw [update_of_ne hj]
      exact hphase
  | enters c i s m w hc hm hs =>
    rw [← hres]
    exact h.visit hs hres (by simp [hc]) m.enter_visited
  | visits c i s v w hc hs =>
    rw [← hres]
    exact h.visit hs hres (by simp [hc]) v.step_visited
  | drives c i s d w hc hs =>
    rw [← hres]
    obtain ⟨hsole, hheld⟩ := h.held hs hc
    have hleads := Driver.step_good (w := w) (i := i) hheld (hl.act hs)
    refine h.apply (by rw [hres]; rfl) (by rw [hres]; rfl) (by rw [hres]; rfl)
      d.step_keeps (fun j hj => ?_) ⟨_, hsole.turn (by rw [hc, drives_drive]) _, hleads⟩
    rw [hc]
    exact local_drive d j hj
  | issues c i s lease w hc hs =>
    rw [← hres]
    have hnone : ∀ k, (a.calls c).drives k = none := by simp [hc]
    rcases issueReset_cases a w c i s lease with ⟨err, heq⟩ | ⟨-, -, -, -, heq⟩
    · rw [heq] at hres
      exact h.quiet hres hnone (fun _ => rfl) (fun _ => rfl)
    · obtain ⟨d, hsole, hgood⟩ := h.good hs
      rw [heq] at hres
      refine h.apply (by rw [hres]; rfl) (by rw [hres]; rfl) (by rw [hres]; rfl)
        (keeps_go (local_done _) rfl rfl id) (fun j _ => hnone j)
        ⟨d, hsole.keep (hnone i) rfl, ?_⟩
      simpa using hgood.congr s.admissionOpen s.activation _ _
  | stores i admissionOpen activation =>
    intro j
    rw [story_snoc, event_out, hres]
    obtain ⟨d, hsole, hphase⟩ := h j
    refine ⟨d, hsole, ?_⟩
    simp only [setAdmission, Note.about, toList_none, List.append_nil]
    by_cases hj : j = i
    · subst hj
      rw [update_self]
      cases hs : a.sessions j with
      | none => rw [hs] at hphase; exact hphase
      | some s =>
        rw [hs] at hphase
        exact Good.congr hphase admissionOpen activation s.nextResetGeneration s.issuedReset
    · rw [update_of_ne hj]
      exact hphase

/-- An available device is in nobody's hands, and the counters can go on. -/
theorem available (h : Listed a) (hfree : a.claimAvailability deviceID = []) :
    a.active deviceID = none ∧ a.nextImportToken ≠ lastCounter ∧
      a.nextSessionGeneration ≠ lastCounter := by
  unfold claimAvailability at hfree
  split at hfree
  · split at hfree <;> simp at hfree
  next hnone =>
    split at hfree
    · simp at hfree
    rename_i hcounters
    simp only [not_or] at hcounters
    refine ⟨?_, hcounters⟩
    cases hact : a.active deviceID with
    | none => rfl
    | some i =>
      obtain ⟨s, hs, -⟩ := h.owner _ _ hact
      simp [hact, hs] at hnone

/-- What the table knows of a session. -/
def Session.entry (s : Session) : ImportLease × Bool × Bool := (s.lease, s.released, s.quarantined)

/-- The table, and the numbers of the next capability. -/
def Authority.table (a : Authority) : (Nat → Option Nat) × Nat × Nat × Nat :=
  (a.active, a.issued, a.nextImportToken, a.nextSessionGeneration)

/-- What a step does to the table: nothing, a claim, or a step about one session. -/
inductive TableStep (a a' : Authority) : Prop
  | same (htable : a'.table = a.table)
      (hsessions : ∀ i, (a'.sessions i).map Session.entry = (a.sessions i).map Session.entry)
  | claims (c deviceID owner ownerID : Nat) (hfree : a.claimAvailability deviceID = [])
      (h : a' = a.claim c deviceID owner ownerID)
  | applies (c i : Nat) (s : Session) (e : Effect) (hs : a.sessions i = some s)
      (hk : Keeps i s (a.isActive i s) e) (htable : a'.table = (a.apply c i s e).1.table)
      (hsessions : a'.sessions = (a.apply c i s e).1.sessions)

theorem step_table (a : Authority) (op : Op) : TableStep a (a.step op).1 := by
  have hturn := step_turn a op
  generalize a.step op = res at hturn
  cases hturn with
  | claims c deviceID owner ownerID w hc hfree => exact .claims c deviceID owner ownerID hfree rfl
  | enters c i s m w hc hm hs => exact .applies c i s _ hs m.enter_visited.keeps rfl rfl
  | visits c i s v w hc hs => exact .applies c i s _ hs v.step_visited.keeps rfl rfl
  | drives c i s d w hc hs => exact .applies c i s _ hs d.step_keeps rfl rfl
  | issues c i s lease w hc hs =>
    rcases issueReset_cases a w c i s lease with ⟨err, heq⟩ | ⟨-, -, -, -, heq⟩ <;> rw [heq]
    · exact .same rfl fun _ => rfl
    refine .same rfl fun j => ?_
    by_cases hj : j = i
    · subst hj
      simp [hs, Session.entry]
    · simp [hj]
  | stores i admissionOpen activation =>
    refine .same rfl fun j => ?_
    by_cases hj : j = i
    · subst hj
      simp only [setAdmission, update_self]
      cases a.sessions j <;> rfl
    · simp only [setAdmission, update_of_ne hj]
  | _ => exact .same rfl fun _ => rfl

theorem session_of_entry {a' : Authority}
    (h : ∀ i, (a'.sessions i).map Session.entry = (a.sessions i).map Session.entry)
    (hs : a'.sessions i = some s) : ∃ s', a.sessions i = some s' ∧ s'.lease = s.lease ∧
      s'.released = s.released ∧ s'.quarantined = s.quarantined := by
  have hi := h i
  rw [hs, map_some] at hi
  obtain ⟨s', hs', heq⟩ := map_eq_some_iff.1 hi.symm
  simp only [Session.entry, Prod.mk.injEq] at heq
  exact ⟨s', hs', heq⟩

/-- The table depends only on what it knows of the sessions. -/
theorem Listed.congr {a' : Authority} (h : Listed a) (htable : a'.table = a.table)
    (hsessions : ∀ i, (a'.sessions i).map Session.entry = (a.sessions i).map Session.entry) :
    Listed a' := by
  have hactive : a'.active = a.active := congrArg Prod.fst htable
  constructor
  · intro deviceID i hact
    rw [hactive] at hact
    obtain ⟨s, hs, hdev, hkept⟩ := h.owner _ _ hact
    obtain ⟨s', hs', hlease, hrel, -⟩ := session_of_entry (fun i => (hsessions i).symm) hs
    exact ⟨s', hs', by rw [hlease, hdev], by rw [hrel, hkept]⟩
  · intro i s hs hkept
    obtain ⟨s', hs', hlease, hrel, -⟩ := session_of_entry hsessions hs
    rw [hactive, ← hlease]
    exact h.listed i s' hs' (by rw [hrel, hkept])

theorem Listed.claim (h : Listed a) (hn : ∀ i, a.sessions i ≠ none ↔ i < a.issued)
    {owner ownerID : Nat} (hfree : a.claimAvailability deviceID = []) :
    Listed (a.claim c deviceID owner ownerID) := by
  have hvacant := (available h hfree).1
  have hfresh : a.sessions a.issued = none := by
    by_contra hsome
    exact absurd ((hn _).1 hsome) (Nat.lt_irrefl _)
  simp only [Authority.claim, if_pos hfree]
  constructor
  · intro dev i hact
    by_cases hdev : dev = deviceID
    · subst hdev
      simp only [update_self, some.injEq] at hact
      subst hact
      exact ⟨_, update_self .., rfl, rfl⟩
    · simp only [update_of_ne hdev] at hact
      obtain ⟨s, hs, hrest⟩ := h.owner _ _ hact
      have hi : i ≠ a.issued := by
        rintro rfl
        simp [hfresh] at hs
      exact ⟨s, by simpa only [update_of_ne hi] using hs, hrest⟩
  · intro i s hs hkept
    by_cases hi : i = a.issued
    · subst hi
      simp only [update_self, some.injEq] at hs
      subst hs
      exact update_self ..
    · simp only [update_of_ne hi] at hs
      have hlisted := h.listed _ _ hs hkept
      have hdev : s.lease.deviceID ≠ deviceID := by
        intro hdev
        rw [hdev, hvacant] at hlisted
        simp at hlisted
      simpa only [update_of_ne hdev] using hlisted

theorem Listed.step (h : Listed a) (hn : ∀ i, a.sessions i ≠ none ↔ i < a.issued)
    (op : Op) : Listed (a.step op).1 := by
  cases step_table a op with
  | same htable hsessions => exact h.congr htable hsessions
  | claims c deviceID owner ownerID hfree heq => exact heq ▸ h.claim hn hfree
  | applies c i s e hs hk htable hsessions =>
    exact (h.apply (c := c) hs hk).congr htable fun _ => by rw [hsessions]

/-- The numbers are kept by a step which issues no capability and keeps the
leases. -/
theorem Numbered.congr {a' : Authority} (h : Numbered first a) (htable : a'.table.2 = a.table.2)
    (hsessions : ∀ i, (a'.sessions i).map Session.lease = (a.sessions i).map Session.lease) :
    Numbered first a' := by
  simp only [table, Prod.mk.injEq] at htable
  obtain ⟨hissued, htoken, hgeneration⟩ := htable
  refine ⟨fun i => ?_, by rw [htoken, hissued, h.token],
    by rw [hgeneration, hissued, h.generation], by rw [htoken]; exact h.tokenBound,
    by rw [hgeneration]; exact h.generationBound, fun i s hs => ?_⟩
  · rw [hissued, ← h.issued i]
    have hi := hsessions i
    cases ha' : a'.sessions i <;> cases ha : a.sessions i <;> simp_all
  · have hi := hsessions i
    rw [hs, map_some] at hi
    obtain ⟨s', hs', heq⟩ := map_eq_some_iff.1 hi.symm
    rw [← heq]
    exact h.lease i s' hs'

theorem Numbered.apply (h : Numbered first a) (hs : a.sessions i = some s)
    (hk : Keeps i s (a.isActive i s) e) : Numbered first (a.apply c i s e).1 := by
  refine h.congr rfl fun j => ?_
  by_cases hj : j = i
  · subst hj
    rw [apply_sessions_self, hs, map_some, map_some, hk.lease]
  · rw [apply_sessions_ne hj]

theorem Numbered.claim (h : Numbered first a) (hl : Listed a) {owner ownerID : Nat}
    (hfree : a.claimAvailability deviceID = []) :
    Numbered first (a.claim c deviceID owner ownerID) := by
  obtain ⟨-, htoken, hgeneration⟩ := available hl hfree
  have hroom := h.tokenBound
  have hroom' := h.generationBound
  simp only [Authority.claim, if_pos hfree]
  constructor
  · intro i
    by_cases hi : i = a.issued
    · subst hi
      simp
    · simp only [update_of_ne hi]
      rw [h.issued i]
      omega
  · simp only [h.token]
    omega
  · simp only [h.generation]
    omega
  · show a.nextImportToken + 1 ≤ lastCounter
    omega
  · show a.nextSessionGeneration + 1 ≤ lastCounter
    omega
  · intro i s hs
    by_cases hi : i = a.issued
    · subst hi
      simp only [update_self, some.injEq] at hs
      subst hs
      exact ⟨by rw [nextLease, h.token], by rw [nextLease, h.generation]⟩
    · simp only [update_of_ne hi] at hs
      exact h.lease i s hs

theorem Numbered.step (h : Numbered first a) (hl : Listed a)
    (op : Op) : Numbered first (a.step op).1 := by
  cases step_table a op with
  | same htable hsessions =>
    refine h.congr (congrArg Prod.snd htable) fun i => ?_
    have hi := congrArg (Option.map Prod.fst) (hsessions i)
    rwa [map_map, map_map] at hi
  | claims c deviceID owner ownerID hfree heq => exact heq ▸ h.claim hl hfree
  | applies c i s e hs hk htable hsessions =>
    exact (h.apply (c := c) hs hk).congr (congrArg Prod.snd htable) fun _ => by rw [hsessions]

/-- The invariant of an authority which started as `first`. -/
structure Inv (first : Authority) (evs : List Step) (a : Authority) : Prop where
  phased : Phased evs a
  listed : Listed a
  numbered : Numbered first a

theorem inv_new {identity lastToken lastGeneration : UInt64}
    (hnew : newRetainedImportAuthority identity lastToken lastGeneration = .ok first) :
    Inv first [] first := by
  unfold newRetainedImportAuthority at hnew
  split at hnew
  · simp at hnew
  obtain rfl := Except.ok.inj hnew
  have htoken := lastToken.toNat_lt
  have hgeneration := lastGeneration.toNat_lt
  refine ⟨fun i => ⟨none, .vacant fun _ => rfl, rfl, rfl⟩, ⟨by simp, by simp⟩,
    ⟨by simp, rfl, rfl, ?_, ?_, by simp⟩⟩
  · show lastToken.toNat ≤ lastCounter
    unfold lastCounter
    omega
  · show lastGeneration.toNat ≤ lastCounter
    unfold lastCounter
    omega

theorem Inv.step (h : Inv first evs a) (op : Op) :
    Inv first (evs ++ [event step a op]) (a.step op).1 :=
  ⟨h.phased.step h.listed h.numbered.issued op, h.listed.step h.numbered.issued op,
    h.numbered.step h.listed op⟩

theorem inv_run (h : Inv first [] first) (ops : List Op) :
    Inv first (trace step first ops) (final step first ops) :=
  history_run (P := Inv first) h (fun _ _ op h => h.step op) ops

/-! ## Leaving the table -/

theorem Good.quarantined (h : Good s σ d) (hq : s.state = .quarantined ∨ s.quarantined) :
    s.quarantined ∧ s.released = false := by
  cases d with
  | none =>
    simp only [Good, Rest] at h
    rcases hq with hstate | hq
    · simp only [hstate] at h
      exact ⟨h.2.1, h.2.2.1⟩
    · refine ⟨hq, ?_⟩
      cases hstate : s.state <;> simp_all
  | some d =>
    cases d with
    | abortPrepared stage =>
      obtain ⟨-, hstate, hkept, h⟩ := h
      rw [hstate] at hq
      exact ⟨by simpa using hq, hkept⟩
    | commit stage =>
      obtain ⟨-, hkept, h⟩ := h
      refine ⟨?_, hkept⟩
      rcases hq with hstate | hq
      · cases stage with
        | unpublishedFence next | unpublishedIngress next | unpublishedScheduler next =>
          cases next <;> simp_all [Cleanup.Marked]
        | _ => simp_all
      · exact hq
    | reset r stage =>
      obtain ⟨⟨hstate, -⟩, -, hkept, -⟩ := h
      rw [hstate] at hq
      exact ⟨by simpa using hq, hkept⟩
    | close reason stage =>
      obtain ⟨⟨hclosing, -⟩, -, h⟩ := h
      have hne : s.state ≠ .quarantined := by
        intro hstate
        simp [hstate, LifecycleState.isClosing] at hclosing
      cases stage <;> simp_all

/-- The driver's steps which delete the device from the table. -/
theorem Driver.frees_cases {w : World} {act : Bool} {d : Driver} (h : (d.step w act i s).frees) :
    d = .abortPrepared .release ∨ d = .commit .rollback ∨
      ∃ reason result, d = .close reason (.releaseDelete result) := by
  cases d with
  | abortPrepared stage =>
    cases stage with
    | release => exact .inl rfl
    | _ => simp [Driver.step, AbortStage.step] at h
  | commit stage =>
    cases stage with
    | rollback => exact .inr (.inl rfl)
    | publish =>
      simp only [Driver.step, CommitStage.step, publishClaimed] at h
      split at h
      · simp at h
      split at h <;> simp at h
    | unpublishedFence next =>
      simp only [Driver.step, CommitStage.step] at h
      split at h <;> simp at h
    | _ => simp [Driver.step, CommitStage.step] at h
  | reset r stage =>
    cases stage with
    | finish =>
      simp only [Driver.step, ResetStage.step, finishReset] at h
      split at h
      · simp at h
      split at h <;> simp at h
    | _ =>
      simp [Driver.step, ResetStage.step, Effect.resetCall, finishResetQuarantined] at h
  | close reason stage =>
    cases stage with
    | releaseDelete result => exact .inr (.inr ⟨_, _, rfl⟩)
    | releaseLook result =>
      simp only [Driver.step, CloseStage.step] at h
      split at h
      · simp at h
      split at h <;> simp at h
    | _ => simp [Driver.step, CloseStage.step] at h

/-- The only first section which deletes the device is that of `abort`. -/
theorem Method.frees_cases {identity : Nat} {w : World} {act : Bool} {m : Method}
    (hm : m.session = some i) (h : (m.enter identity w act i s).frees) :
    m = .abort i ∧ s.state = .reserved := by
  have hv : Visited i s act (m.enter identity w act i s) := m.enter_visited
  cases m with
  | abort j =>
    refine ⟨by rw [some.inj hm], ?_⟩
    generalize Method.enter identity w act i s (.abort j) = e at hv h
    cases hv with
    | aborts hact hstate => exact hstate
    | _ => simp at h
  | reset j r =>
    simp only [Method.enter, beginReset] at h
    repeat' split at h
    all_goals simp at h
  | close j lease reason =>
    simp only [Method.enter, beginClose] at h
    repeat' split at h
    all_goals simp at h
  | commit j ingress scheduler =>
    simp only [Method.enter, beginCommit] at h
    repeat' split at h
    all_goals simp at h
  | abortPrepared j =>
    simp only [Method.enter, ImportSession.abortPrepared] at h
    repeat' split at h
    all_goals simp at h
  | _ =>
    simp only [Method.enter, ImportSession.beginParkedSchedulerBuild,
      ImportSession.finishParkedSchedulerBuild, ImportSession.failParkedSchedulerBuild,
      exactSection] at h
    repeat' split at h
    all_goals simp at h

/-- The four ways in which session `i` may leave the table at the step `e`,
after the history `before`. -/
inductive SafeRelease (i : Nat) (s : Session) (before : List Step) (e : Step) : Prop
  /-- `abort`, while the session is still Reserved -/
  | aborted (c : Nat) (w : World) (hop : e.op = .advance c w)
      (hpc : e.pre.calls c = .entry (.abort i)) (hstate : s.state = .reserved)
  /-- `abortPrepared`, after its scheduler closed without error -/
  | preparedAborted (c : Nat) (w : World) (hop : e.op = .advance c w)
      (hpc : e.pre.calls c = .drive i (.abortPrepared .release))
      (hstory : story i before = [.closeAdmission ok, .schedulerClose ok])
  /-- an exact Rejected bind, and an error-free cleanup -/
  | bindRejected (c : Nat) (w : World) (hop : e.op = .advance c w)
      (hpc : e.pre.calls c = .drive i (.commit .rollback)) (b : Answer SchedulerBinding)
      (hstory : story i before =
        [.importBinding b, .bindImport s.lease (.returned ⟨s.lease, .rejected⟩ []),
          .closeAdmission ok, .ingressClose ok, .schedulerClose ok])
  /-- a close whose five steps all succeeded, in this order -/
  | closed (c : Nat) (w : World) (hop : e.op = .advance c w) (reason : ImportCloseReason)
      (result : ImportDisconnectResult)
      (hpc : e.pre.calls c = .drive i (.close reason (.releaseDelete result)))
      (b : Answer SchedulerBinding)
      (hstory : story i before =
        [.importBinding b, .bindImport s.lease (.returned ⟨s.lease, .bound⟩ []),
          .activateImport ok, .openAdmission ok,
          .closeAdmission ok, .ingressClose ok, .schedulerClose ok,
          .cancelAndDrain s.lease reason (.returned ⟨s.lease, reason, .drained⟩ []),
          .disconnectNeutral s.lease reason (.returned ⟨s.lease, reason, .safe⟩ [])])

/-- Which steps take a device out of the table. -/
theorem frees_of_leaves (hl : Listed a) (hin : a.active deviceID = some i)
    (hout : (a.step op).1.active deviceID ≠ some i) :
    ∃ c w s e, op = .advance c w ∧ a.sessions i = some s ∧ e.frees ∧
      ((∃ m, a.calls c = .entry m ∧ m.session = some i ∧
          e = m.enter a.identity w (a.isActive i s) i s) ∨
        ∃ d, a.calls c = .drive i d ∧ e = d.step w (a.isActive i s) i s) := by
  have hturn := step_turn a op
  generalize a.step op = res at hturn hout
  -- a step about session `j` takes out `j`'s own device only
  have hsame : ∀ {c j : Nat} {s : Session} {e : Effect}, a.sessions j = some s →
      Keeps j s (a.isActive j s) e → (a.apply c j s e).1.active deviceID ≠ some i →
      j = i ∧ e.frees := by
    intro c j s e hs hk hne
    cases hf : e.frees with
    | false => exact absurd hin (by simpa [hf] using hne)
    | true =>
      have hactive := (hk.frees hf).1
      simp only [isActive, beq_iff_eq] at hactive
      by_cases hd : deviceID = s.lease.deviceID
      · rw [hd, hactive] at hin
        exact ⟨some.inj hin, rfl⟩
      · exact absurd hin (by simpa [hf, update_of_ne hd] using hne)
  cases hturn with
  | claims c device owner ownerID w hc hfree =>
    simp only [claim, if_pos hfree] at hout
    by_cases hd : deviceID = device
    · rw [hd, (available hl hfree).1] at hin
      simp at hin
    · exact absurd hin (by simpa [update_of_ne hd] using hout)
  | enters c j s m w hc hm hs =>
    obtain ⟨rfl, hf⟩ := hsame hs m.enter_visited.keeps hout
    exact ⟨c, w, s, _, rfl, hs, hf, .inl ⟨m, hc, hm, rfl⟩⟩
  | visits c j s v w hc hs =>
    obtain ⟨rfl, hf⟩ := hsame hs v.step_visited.keeps hout
    have hnot : (v.step w (a.isActive j s) j s).frees = false := by
      cases v <;> simp only [Visitor.step] <;> repeat' split
      all_goals rfl
    simp [hnot] at hf
  | drives c j s d w hc hs =>
    obtain ⟨rfl, hf⟩ := hsame hs d.step_keeps hout
    exact ⟨c, w, s, _, rfl, hs, hf, .inr ⟨d, hc, rfl⟩⟩
  | issues c j s lease w hc hs =>
    rcases issueReset_cases a w c j s lease with ⟨err, heq⟩ | ⟨-, -, -, -, heq⟩ <;>
      exact absurd hin (by simpa [heq, moveTo] using hout)
  | _ => exact absurd hin hout

/-- A session which leaves the table does so in one of the four safe ways. -/
theorem Inv.leaves (h : Inv first evs a) (hin : a.active deviceID = some i)
    (hout : (a.step op).1.active deviceID ≠ some i) :
    ∃ s, a.sessions i = some s ∧ s.state ≠ .quarantined ∧ s.quarantined = false ∧
      SafeRelease i s evs (event Authority.step a op) := by
  obtain ⟨c, w, s, e, rfl, hs, hfrees, hstep⟩ := frees_of_leaves h.listed hin hout
  obtain ⟨d, hsole, hgood⟩ := h.phased.good hs
  have hclean : s.quarantined = false → s.state ≠ .quarantined := by
    intro hq hstate
    have := (hgood.quarantined (.inl hstate)).1
    simp [hq] at this
  rcases hstep with ⟨m, hc, hm, rfl⟩ | ⟨d', hc, rfl⟩
  · obtain ⟨rfl, hstate⟩ := Method.frees_cases hm hfrees
    obtain rfl := hgood.vacant hstate rfl
    have hq : s.quarantined = false := by
      simp only [Good, Rest, hstate] at hgood
      exact hgood.2.1
    exact ⟨s, hs, hclean hq, hq, .aborted c w rfl hc hstate⟩
  · have hd : (a.calls c).drives i = some d' := by rw [hc, drives_drive]
    obtain rfl := hsole.eq_some hd
    rcases Driver.frees_cases hfrees with rfl | rfl | ⟨reason, result, rfl⟩
    · obtain ⟨-, -, -, hq, hσ⟩ := hgood
      exact ⟨s, hs, hclean hq, hq, .preparedAborted c w rfl hc hσ⟩
    · obtain ⟨-, -, -, hq, β, ⟨b, rfl⟩, hσ⟩ := hgood
      exact ⟨s, hs, hclean hq, hq, .bindRejected c w rfl hc b hσ⟩
    · obtain ⟨-, -, -, -, hq, -, β, ⟨b, rfl⟩, hσ⟩ := hgood
      exact ⟨s, hs, hclean hq, hq, .closed c w rfl reason result hc b hσ⟩

theorem step_session (h : a.sessions i = some s) (hn : i < a.issued) (op : Op) :
    ∃ s', (a.step op).1.sessions i = some s' ∧ s'.lease = s.lease ∧
      (s.quarantined → s'.quarantined) := by
  cases step_table a op with
  | same htable hsessions =>
    obtain ⟨s', hs', hlease, -, hq⟩ := session_of_entry (fun i => (hsessions i).symm) h
    exact ⟨s', hs', hlease, fun h => hq.trans h⟩
  | claims c deviceID owner ownerID hfree heq =>
    refine ⟨s, ?_, rfl, id⟩
    simp only [heq, claim, if_pos hfree, update_of_ne (Nat.ne_of_lt hn), h]
  | applies c j t e ht hk htable hsessions =>
    rw [hsessions]
    by_cases hj : i = j
    · subst hj
      rw [h] at ht
      obtain rfl := some.inj ht
      exact ⟨e.session, apply_sessions_self, hk.lease, hk.sticky⟩
    · exact ⟨s, by rw [apply_sessions_ne hj, h], rfl, id⟩

theorem quarantined_stays (h : Inv first evs a) (hs : a.sessions i = some s)
    (hq : s.quarantined) (ops : List Op) :
    ∃ s', (final step a ops).sessions i = some s' ∧ s'.lease = s.lease ∧ s'.quarantined ∧
      (final step a ops).active s.lease.deviceID = some i := by
  have hrun : ∀ (ops : List Op) (evs : List Step) (a : Authority) (t : Session),
      Inv first evs a → a.sessions i = some t → t.lease = s.lease → t.quarantined →
      ∃ s', (final step a ops).sessions i = some s' ∧ s'.lease = s.lease ∧ s'.quarantined ∧
        (final step a ops).active s.lease.deviceID = some i := by
    intro ops
    induction ops with
    | nil =>
      intro evs a t hinv ht hlease hq
      obtain ⟨d, -, hgood⟩ := hinv.phased.good ht
      have hkept := (hgood.quarantined (.inr hq)).2
      exact ⟨t, ht, hlease, hq, by rw [← hlease]; exact hinv.listed.listed i t ht hkept⟩
    | cons op ops ih =>
      intro evs a t hinv ht hlease hq
      have hlt := (hinv.numbered.issued i).1 (by simp [ht])
      obtain ⟨t', ht', hlease', hq'⟩ := step_session ht hlt op
      exact ih _ _ t' (hinv.step op) ht' (hlease'.trans hlease) (hq' hq)
  exact hrun ops evs a s h hs rfl hq

/-- **A retained device is released only when proven safe.**  After any run of
any authority, with callbacks which answer as they please: the sessions not yet
released are exactly those in the table, at most one of each device; tokens and
generations increase strictly from session to session and stay below `2^64`; a
session which leaves the table has not been quarantined and leaves in one of
the four safe ways; and a session quarantined by then is in the table after
every continuation. -/
theorem released_only_when_safe {identity lastToken lastGeneration : UInt64} {first : Authority}
    (hnew : newRetainedImportAuthority identity lastToken lastGeneration = .ok first)
    (ops : List Authority.Op) :
    (∀ i s, (final Authority.step first ops).sessions i = some s →
      ((final Authority.step first ops).active s.lease.deviceID = some i ↔ s.released = false)) ∧
    (∀ i j s t, (final Authority.step first ops).sessions i = some s →
      (final Authority.step first ops).sessions j = some t →
      s.lease.deviceID = t.lease.deviceID → s.released = false → t.released = false →
      i = j) ∧
    (∀ i j s t, (final Authority.step first ops).sessions i = some s →
      (final Authority.step first ops).sessions j = some t → i < j →
      s.lease.importToken < t.lease.importToken ∧ t.lease.importToken < 2 ^ 64 ∧
      s.lease.sessionGeneration < t.lease.sessionGeneration ∧
      t.lease.sessionGeneration < 2 ^ 64) ∧
    (∀ before e after, trace Authority.step first ops = before ++ e :: after →
      ∀ deviceID i, e.pre.active deviceID = some i → e.post.active deviceID ≠ some i →
      ∃ s, e.pre.sessions i = some s ∧ s.state ≠ .quarantined ∧ s.quarantined = false ∧
        SafeRelease i s before e) ∧
    (∀ i s, (final Authority.step first ops).sessions i = some s →
      s.state = .quarantined ∨ s.quarantined →
      ∀ more, (final Authority.step first (ops ++ more)).active s.lease.deviceID = some i) := by
  have hinv := inv_run (inv_new hnew) ops
  have hlisted := hinv.listed
  refine ⟨fun i s hs => ⟨fun hact => ?_, hlisted.listed i s hs⟩,
    fun i j s t hs ht hdev hi hj => ?_, fun i j s t hs ht hij => ?_, ?_,
    fun i s hs hq more => ?_⟩
  · obtain ⟨s', hs', -, hkept⟩ := hlisted.owner _ _ hact
    rw [hs] at hs'
    rw [some.inj hs', hkept]
  · have hi' := hlisted.listed i s hs hi
    have hj' := hlisted.listed j t ht hj
    rw [hdev, hj'] at hi'
    exact (some.inj hi').symm
  · obtain ⟨hstoken, hsgeneration⟩ := hinv.numbered.lease i s hs
    obtain ⟨httoken, htgeneration⟩ := hinv.numbered.lease j t ht
    have hlt := (hinv.numbered.issued j).1 (by simp [ht])
    have htoken := hinv.numbered.token
    have hgeneration := hinv.numbered.generation
    have hbound := hinv.numbered.tokenBound
    have hbound' := hinv.numbered.generationBound
    unfold lastCounter at hbound hbound'
    omega
  · intro before e after hsplit deviceID i hin hout
    obtain ⟨ops₁, op, ops₂, -, rfl, rfl, -⟩ := trace_eq_append_cons hsplit
    exact (inv_run (inv_new hnew) ops₁).leaves hin hout
  · obtain ⟨d, -, hgood⟩ := hinv.phased.good hs
    obtain ⟨s', -, -, -, hact⟩ :=
      quarantined_stays hinv hs (hgood.quarantined hq).1 more
    rw [final_append]
    exact hact

/-! ### An import which is claimed and closed -/

/-- The first capability of a new authority, for device 7. -/
def smallLease : ImportLease := ⟨1, 7, 5, 1, 1⟩

def smallAuthority : Authority :=
  { identity := 1, nextImportToken := 0, nextSessionGeneration := 0 }

/-- Goroutine 0 reserves device 7, builds the scheduler and commits. -/
def claimRun : List Op :=
  [.call 0 (.reserve 7 (some 1)), .advance 0 {}, .advance 0 { identity := .returned 5 [] },
    .advance 0 {}, .advance 0 {}, .advance 0 {},
    .call 0 (.beginParkedSchedulerBuild 0), .advance 0 {}, .advance 0 {},
    .call 0 (.finishParkedSchedulerBuild 0 (some 3)), .advance 0 {}, .advance 0 {},
    .call 0 (.commit 0 (some 2) (some 3)), .advance 0 {},
    .advance 0 { binding := .returned ⟨1, 5, 1, some 0, true, true⟩ [] },
    .advance 0 { bind := .returned ⟨smallLease, .bound⟩ [] },
    .advance 0 { admissionOpen := false }, .advance 0 {}, .advance 0 {}]

/-- … and closes the import, up to the section which releases it. -/
def closeRun : List Op :=
  claimRun ++ [.call 0 (.close 0 smallLease .explicitDetach), .advance 0 {}, .advance 0 {},
      .advance 0 {}, .advance 0 {}, .advance 0 {}, .advance 0 {},
      .advance 0 { drain := .returned ⟨smallLease, .explicitDetach, .drained⟩ [] },
      .advance 0 {},
      .advance 0 { disconnect := .returned ⟨smallLease, .explicitDetach, .safe⟩ [] },
      .advance 0 {}, .advance 0 {}]

theorem closeRun_released : newRetainedImportAuthority 1 0 0 = .ok smallAuthority ∧
      ∃ s, (final Authority.step smallAuthority closeRun).sessions 0 = some s ∧
        s.state ≠ .quarantined ∧ s.quarantined = false ∧
        SafeRelease 0 s (trace Authority.step smallAuthority closeRun)
          (event Authority.step (final Authority.step smallAuthority closeRun)
            (.advance 0 {})) := by
  have hnew : newRetainedImportAuthority 1 0 0 = .ok smallAuthority := rfl
  refine ⟨hnew, ?_⟩
  have hleave :=
    (released_only_when_safe hnew (closeRun ++ [Authority.Op.advance 0 {}])).2.2.2.1
  exact hleave _ _ [] (trace_snoc ..) 7 0 (by decide +kernel) (by decide +kernel)

end Viiper.Ports.ImportSession
