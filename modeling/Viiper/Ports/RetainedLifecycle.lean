import Viiper.Ports.RetainedPhases

/-!
# Lifecycle responses and the binding generation

A delivered response to a lifecycle request rotates the binding generation: interrupt
work of the generations before it on a route the request concerns is swept out of the
lanes, and only then is the new routing published and work let in again.  The token's
holder is inside this rotation, `Pc.barrier`, from the admission of the response on.
-/

namespace Viiper.Ports.Retained

open Verified Run Function Scheduler List Retained.System

variable {cfg : Config} {epoch : Nat} {ops : List Op} {b b' : Board} {l : Label} {ls : List Label}
  {o k : Nat} {x y : Slot} {lifecycle : ControlLifecycle} {successor : Nat}

/-! ## What the token's holder does -/

/-- A label of the rotation, or of a preparation. -/
def Label.turns : Label → Bool
  | .prepared _ _ _ | .rotated _ _ | .published _ | .released => true
  | _ => false

/-- A label which begins, makes or ends a rotation. -/
def Label.rotates : Label → Bool
  | .prepared _ _ (.admitted _) | .rotated _ _ | .published _ | .released => true
  | _ => false

/-- The barrier, the generation and the routing are as they were. -/
structure SameRouting (b b' : Board) : Prop where
  pending : b'.lifecycleCompletionPending = b.lifecycleCompletionPending
  generation : b'.bindingGeneration = b.bindingGeneration
  configuration : b'.activeConfiguration = b.activeConfiguration
  alternate : b'.activeAlternateSetting = b.activeAlternateSetting

/-- The routing which a lifecycle request makes of another. -/
def ControlLifecycle.routing (lifecycle : ControlLifecycle) (r : UInt8 × UInt8) : UInt8 × UInt8 :=
  match lifecycle.kind with
  | .setInterface => (r.1, lifecycle.alternateSetting)
  | .setConfiguration => (lifecycle.configurationValue, 0)
  | _ => r

/-- The active configuration and alternate setting. -/
def System.active {Q : Type} (s : System Q) : UInt8 × UInt8 :=
  (s.activeConfiguration, s.activeAlternateSetting)

/-- What a move does to the token's holder. -/
inductive Serves (cfg : Config) (b : Board) (l : Label) (b' : Board) : Prop
  | keep : l.turns = false → b'.pc = b.pc → SameRouting b b' → Serves cfg b l b'
  | plain : l.rotates = false → b.pc.barrier = false → b'.pc.barrier = false →
      SameRouting b b' → Serves cfg b l b'
  | admits {o : Nat} {ticket : Ticket} {a : Admission} :
      l = .prepared o ticket (.admitted a.lifecycleTerminalSuccess) → b.pc.barrier = false →
      b'.pc = .sending a →
      b'.lifecycleCompletionPending = (b.lifecycleCompletionPending || a.lifecycleTerminalSuccess) →
      b'.bindingGeneration = b.bindingGeneration → b'.active = b.active → Serves cfg b l b'
  | send {a : Admission} {delivered : Bool} : l.turns = false → b.pc = .sending a →
      b'.pc = .completing a delivered → SameRouting b b' → Serves cfg b l b'
  | complete {a : Admission} {delivered completed : Bool} : l.turns = false →
      b.pc = .completing a delivered → b'.pc = .settling a delivered completed →
      SameRouting b b' → Serves cfg b l b'
  | settle {a : Admission} {delivered completed : Bool} {lifecycle : ControlLifecycle} :
      l.turns = false → b.pc = .settling a delivered completed →
      applies cfg b a delivered completed = false →
      b'.pc = (if a.lifecycleTerminalSuccess then .routing lifecycle false else .idle) →
      SameRouting b b' → Serves cfg b l b'
  | rotate {a : Admission} {delivered completed : Bool} {x : Slot} :
      l = .rotated x.controlLifecycle (b.bindingGeneration + 1) →
      b.pc = .settling a delivered completed → b.find a.ref.ingressOrdinal = some x →
      applies cfg b a delivered completed →
      b'.pc = .sweeping x.controlLifecycle (b.bindingGeneration + 1) →
      b'.lifecycleCompletionPending = b.lifecycleCompletionPending →
      b'.bindingGeneration = b.bindingGeneration + 1 → b'.active = b.active → Serves cfg b l b'
  | sweep {lifecycle : ControlLifecycle} {successor : Nat} : l.turns = false →
      b.pc = .sweeping lifecycle successor → b'.pc = .swept lifecycle →
      b'.lanes = (fun lane => (b.lanes lane).filterMap
        (sweptSlot (.lifecycle lifecycle successor))) → SameRouting b b' → Serves cfg b l b'
  | unswept {lifecycle : ControlLifecycle} {successor : Nat} : l.turns = false →
      b.pc = .sweeping lifecycle successor → lifecycleScope lifecycle successor = none →
      b'.pc = .routing lifecycle false → SameRouting b b' → Serves cfg b l b'
  | retired {lifecycle : ControlLifecycle} {published : Bool} : l.turns = false →
      b.pc = .swept lifecycle → b'.pc = .routing lifecycle published → SameRouting b b' →
        Serves cfg b l b'
  | publish {lifecycle : ControlLifecycle} : l = .published lifecycle →
      b.pc = .routing lifecycle true → b'.pc = .idle → b'.lifecycleCompletionPending = false →
      b'.bindingGeneration = b.bindingGeneration → b'.active = lifecycle.routing b.active →
        Serves cfg b l b'
  | release {lifecycle : ControlLifecycle} : l = .released →
      b.pc = .routing lifecycle false → b'.pc = .idle → b'.lifecycleCompletionPending = false →
      b'.bindingGeneration = b.bindingGeneration → b'.active = b.active → Serves cfg b l b'

theorem Pc.plain_barrier {pc : Pc} (h : pc.plain) : pc.barrier = false := by
  cases pc <;> first | rfl | cases h

theorem turns_silent (h : l.silent) : l.turns = false := by
  cases l <;> first | rfl | cases h

theorem rotates_of_turns (h : l.turns = false) : l.rotates = false := by
  cases l <;> first | rfl | cases h

theorem Calm.sameRouting (h : Calm b b') : SameRouting b b' :=
  ⟨h.lifecycleCompletionPending, h.bindingGeneration, h.activeConfiguration,
    h.activeAlternateSetting⟩

/-- A calm step of the token's holder. -/
theorem serves_calm (hl : l.turns = false) (h : Calm b b') : Serves cfg b l b' := by
  have hpc := h.pc
  generalize hb : b.pc = pc at hpc
  generalize hb' : b'.pc = pc' at hpc
  cases hpc with
  | keep => exact .keep hl (hb'.trans hb.symm) h.sameRouting
  | plain hp hp' =>
    exact .plain (rotates_of_turns hl) (by rw [hb]; exact Pc.plain_barrier hp)
      (by rw [hb']; exact Pc.plain_barrier hp') h.sameRouting
  | finish _ hwas =>
    refine .plain (rotates_of_turns hl) ?_ (by rw [hb']; rfl) h.sameRouting
    rcases hwas with rfl | ⟨reset, rfl⟩ <;> rw [hb] <;> rfl
  | routing lifecycle published => exact .retired hl hb hb' h.sameRouting
  | unswept hscope => exact .unswept hl hb hscope hb' h.sameRouting

/-- The end of a completion callback. -/
theorem serves_route {published : Bool} (hpc : b.pc = .routing lifecycle published)
    (h : b.route cfg lifecycle published = (b', l)) : Serves cfg b l b' := by
  unfold route at h
  split at h
  next hpublished =>
    cases h
    subst hpublished
    refine .publish rfl hpc rfl rfl ?_ ?_
    · unfold applyControlLifecycleRouting
      cases lifecycle.kind <;> rfl
    · unfold applyControlLifecycleRouting ControlLifecycle.routing active
      cases lifecycle.kind <;> rfl
  next hpublished =>
    cases h
    rw [Bool.not_eq_true] at hpublished
    subst hpublished
    exact .release rfl hpc rfl rfl rfl rfl

/-- **What a move does to the token's holder.** -/
theorem Move.serves (hm : Move cfg b l b') : Serves cfg b l b' := by
  cases hm with
  | calm hl hcalm => exact serves_calm (turns_silent hl) hcalm
  | stage hpc | unstage hpc | sequence hpc | pend hpc | claim hpc | claimNone hpc =>
    exact .plain rfl (by rw [hpc]; rfl) rfl ⟨rfl, rfl, rfl, rfl⟩
  | refuse hpc _ _ _ hout =>
    refine .plain ?_ (by rw [hpc]; rfl) ?_ ⟨rfl, rfl, rfl, rfl⟩
    · rcases hout with ⟨rfl, -⟩ | ⟨rfl, -⟩ <;> rfl
    · rcases hout with ⟨-, rfl⟩ | ⟨-, rfl⟩ <;> rfl
  | admits hpc => exact .admits rfl (by rw [hpc]; rfl) rfl rfl rfl rfl
  | send hpc => exact .send rfl hpc rfl ⟨rfl, rfl, rfl, rfl⟩
  | complete hpc => exact .complete rfl hpc rfl ⟨rfl, rfl, rfl, rfl⟩
  | settle hpc _ _ happly => exact .settle rfl hpc happly rfl ⟨rfl, rfl, rfl, rfl⟩
  | rotate hpc hx _ happly => exact .rotate rfl hpc hx happly rfl rfl rfl rfl
  | sweep hby =>
    cases hby with
    | lifecycle hpc => exact .sweep rfl hpc rfl rfl ⟨rfl, rfl, rfl, rfl⟩
    | drain hpc => exact .plain rfl (by rw [hpc]; rfl) rfl ⟨rfl, rfl, rfl, rfl⟩
    | _ => exact .keep rfl rfl ⟨rfl, rfl, rfl, rfl⟩
  | unlinkRaw hby | unlinkStaged hby => cases hby <;> exact .keep rfl rfl ⟨rfl, rfl, rfl, rfl⟩
  | route hpc hroute => exact serves_route hpc hroute
  | abandon hl => exact .keep (turns_silent hl) rfl ⟨rfl, rfl, rfl, rfl⟩
  | _ => exact .keep rfl rfl ⟨rfl, rfl, rfl, rfl⟩

/-! ## The history of the routing -/

def Label.bar (barrier : Bool) : Label → Bool
  | .prepared _ _ (.admitted lifecycle) => barrier || lifecycle
  | .published _ | .released => false
  | _ => barrier

/-- A lifecycle response was admitted, and its completion has not ended. -/
def inBarrier (ls : List Label) : Bool := ls.foldl Label.bar false

def Label.isRotation : Label → Bool
  | .rotated _ _ => true
  | _ => false

def Label.routing (r : UInt8 × UInt8) : Label → UInt8 × UInt8
  | .published lifecycle => lifecycle.routing r
  | _ => r

/-- The configuration and alternate setting last published. -/
def publishedRouting (ls : List Label) : UInt8 × UInt8 := ls.foldl Label.routing (0, 0)

/-- The scheduler's fields are what the history says. -/
structure Rotated (cfg : Config) (ls : List Label) (b : Board) : Prop where
  barrier : b.pc.barrier = inBarrier ls
  pending : b.lifecycleCompletionPending = inBarrier ls
  generation : b.bindingGeneration = cfg.controlLifecycle.getD 0 + ls.countP Label.isRotation
  routing : b.active = publishedRouting ls

theorem Rotated.next (h : Rotated cfg ls b) (hbarrier : b'.pc.barrier = l.bar b.pc.barrier)
    (hpending : b'.lifecycleCompletionPending = l.bar b.lifecycleCompletionPending)
    (hgeneration : b'.bindingGeneration = b.bindingGeneration + l.isRotation.toNat)
    (hrouting : b'.active = l.routing b.active) : Rotated cfg (ls ++ [l]) b' := by
  have hbar : inBarrier (ls ++ [l]) = l.bar (inBarrier ls) := foldl_append
  have hrouted : publishedRouting (ls ++ [l]) = l.routing (publishedRouting ls) :=
    foldl_append
  refine ⟨?_, ?_, ?_, ?_⟩
  · rw [hbar, hbarrier, h.barrier]
  · rw [hbar, hpending, h.pending]
  · rw [countP_snoc, hgeneration, h.generation]
    exact Nat.add_assoc _ _ _
  · rw [hrouted, hrouting, h.routing]

theorem bar_of_rotates (h : l.rotates = false) (barrier : Bool) : l.bar barrier = barrier := by
  cases l with
  | prepared o ticket outcome => cases outcome <;> first | rfl | cases h
  | _ => first | rfl | cases h

theorem isRotation_of_rotates (h : l.rotates = false) : l.isRotation = false := by
  cases l <;> first | rfl | cases h

theorem routing_of_rotates (h : l.rotates = false) (r : UInt8 × UInt8) : l.routing r = r := by
  cases l <;> first | rfl | cases h

/-- A step within a round or within a rotation. -/
theorem Rotated.same (h : Rotated cfg ls b) (hl : l.rotates = false)
    (hbarrier : b'.pc.barrier = b.pc.barrier) (hsame : SameRouting b b') :
    Rotated cfg (ls ++ [l]) b' := by
  refine h.next ?_ ?_ ?_ ?_
  · rw [bar_of_rotates hl, hbarrier]
  · rw [bar_of_rotates hl, hsame.pending]
  · rw [isRotation_of_rotates hl, hsame.generation]
    rfl
  · rw [routing_of_rotates hl]
    unfold active
    rw [hsame.configuration, hsame.alternate]

theorem applies_success {a : Admission} {delivered completed : Bool}
    (h : applies cfg b a delivered completed) : a.lifecycleTerminalSuccess := by
  unfold applies at h
  simp only [Bool.and_eq_true] at h
  exact h.1.1.2

theorem Rotated.move (hm : Move cfg b l b') (h : Rotated cfg ls b) :
    Rotated cfg (ls ++ [l]) b' := by
  cases hm.serves with
  | keep hl hpc hsame => exact h.same (rotates_of_turns hl) (by rw [hpc]) hsame
  | plain hl hp hp' hsame => exact h.same hl (hp'.trans hp.symm) hsame
  | send hl hpc hpc' hsame | complete hl hpc hpc' hsame | sweep hl hpc hpc' _ hsame
  | unswept hl hpc _ hpc' hsame | retired hl hpc hpc' hsame =>
    exact h.same (rotates_of_turns hl) (by rw [hpc, hpc']; rfl) hsame
  | @settle a delivered completed lifecycle hl hpc _ hpc' hsame =>
    refine h.same (rotates_of_turns hl) ?_ hsame
    rw [hpc, hpc']
    show _ = a.lifecycleTerminalSuccess
    cases a.lifecycleTerminalSuccess <;> rfl
  | admits hl hpc hpc' hpending hgeneration hactive =>
    subst hl
    refine h.next ?_ hpending hgeneration hactive
    rw [hpc', hpc]
    exact (Bool.false_or _).symm
  | rotate hl hpc _ happly hpc' hpending hgeneration hactive =>
    subst hl
    refine h.next ?_ hpending hgeneration hactive
    rw [hpc', hpc]
    exact (applies_success happly).symm
  | publish hl _ hpc' hpending hgeneration hactive
  | release hl _ hpc' hpending hgeneration hactive =>
    subst hl
    exact h.next (by rw [hpc']; rfl) hpending hgeneration hactive

/-- **The barrier, the generation and the routing are read off the history.** -/
theorem rotated_run (cfg : Config) (epoch : Nat) (ops : List Op) :
    Rotated cfg (labels cfg epoch ops) ((reached cfg epoch ops).view cfg) :=
  labels_rule (P := Rotated cfg) ⟨rfl, rfl, rfl, rfl⟩ (fun _ _ _ _ _ hm h => h.move hm) ops

/-! ## The fence of a delivered response -/

/-- An admitted job is as it was until its response is settled. -/
theorem Move.admitted (hm : Move cfg b l b') (h : Inv cfg b) (hx : b.find k = some x)
    (hs : x.state = .admitted) : b'.find k = some x ∨ b'.find k = none := by
  have hother : ∀ {y : Slot} {j : Nat}, b.find j = some y → y.state ≠ .admitted → k ≠ j := by
    rintro y j hy hys rfl
    cases hx.symm.trans hy
    exact hys hs
  have hhead : ∀ {lane : Lane} {y : Slot} {j : Nat}, b.IsHead lane y → y.ingressOrdinal = j →
      b.find j = some y :=
    fun hy hj => (find_eq_some h.queued).2 ⟨head_mem_all hy, hj⟩
  have hsame : b'.lanes = b.lanes → b'.find k = some x := fun hl => (find_lanes hl).trans hx
  have hrewrite : ∀ {j : Nat} {g : Slot → Slot}, k ≠ j →
      b'.lanes = (fun lane => rewriteJob j g (b.lanes lane)) →
      (∀ x, (g x).ingressOrdinal = x.ingressOrdinal) → b'.find k = some x := by
    intro j g hne hl hg
    rw [find_rewrite hl fun x _ hxj => (hg x).trans hxj, if_neg hne]
    exact hx
  have hdrop : ∀ {j : Nat}, k ≠ j → b'.lanes = (fun lane => dropJob j (b.lanes lane)) →
      b'.find k = some x := by
    intro j hne hl
    rw [find_drop hl, if_neg hne]
    exact hx
  have hsettle : ∀ {j : Nat}, b'.lanes = (fun lane => dropJob j (b.lanes lane)) →
      b'.find k = some x ∨ b'.find k = none := by
    intro j hl
    by_cases hne : k = j
    · exact .inr (by rw [find_drop hl, if_pos hne])
    · exact .inl (hdrop hne hl)
  have hraw : ∀ {y : Slot}, y.state = .rawQueued → y.state ≠ .admitted := by
    intro y hy hadm
    cases hy.symm.trans hadm
  have hqueued := h.queued.move hm
  have hk := find_le h.queued hx
  cases hm with
  | calm _ hcalm => exact .inl (hsame hcalm.lanes)
  | enqueue =>
    have hfind : _ = if k = b.nextOrdinal + 1 then _ else b.find k := find_push rfl hqueued
    exact .inl (hfind.trans ((if_neg (by omega)).trans hx))
  | stage _ hy hord hys =>
    exact .inl (hrewrite (hother (hhead hy hord) (hraw hys)) rfl
      fun x => (kept_refresh b _ _ x).ordinal)
  | unstage _ hy hord hys => exact .inl (hdrop (hother (hhead hy hord) (hraw hys)) rfl)
  | pend _ hy hord hys | admits _ hy hord hys =>
    exact .inl (hrewrite (hother (hhead hy hord) (staged_ne hys rfl)) rfl fun _ => rfl)
  | claim _ hy hys =>
    exact .inl (hrewrite (hother hy (staged_ne hys rfl)) rfl fun _ => rfl)
  | settle | rotate => exact hsettle rfl
  | sweep hby =>
    refine .inl ?_
    rw [find_sweep (lanes_congr hby.lanes) h.queued, hx]
    unfold sweptSlot
    simp [hs]
  | unlinkRaw hby hy hys => exact .inl (hdrop (hother hy (hraw hys)) (lanes_congr hby.lanes))
  | unlinkStaged hby hy hys =>
    exact .inl (hrewrite (hother hy (staged_ne hys rfl)) (lanes_congr hby.lanes) fun _ => rfl)
  | release htodo =>
    obtain ⟨y, hfind, -, hys⟩ := h.find_owed htodo
    refine .inl (hdrop (hother hfind ?_) rfl)
    rw [hys]
    nofun
  | route _ hroute =>
    obtain ⟨_, _, _, rfl⟩ := route_spec hroute
    exact .inl (hsame rfl)
  | _ => exact .inl (hsame rfl)

/-- A job after a move is gone, or what it was. -/
theorem Move.find_kept (hm : Move cfg b l b') (h : Inv cfg b) (hy : b.find o = some y) :
    b'.find o = none ∨ ∃ y', b'.find o = some y' ∧ Kept y y' := by
  rcases hf : b'.find o with _ | y'
  · exact .inl rfl
  obtain ⟨hmem, hord⟩ := findJob_mem hf
  obtain ⟨lane, hlane⟩ := mem_allJobs.1 hmem
  refine .inr ⟨y', rfl, ?_⟩
  rcases hm.origin hlane with ⟨x, hx, hkept⟩ | henq
  · have hxo : b.find o = some x :=
      (find_eq_some h.queued).2 ⟨mem_allJobs.2 ⟨lane, hx⟩, hkept.ordinal.symm.trans hord⟩
    cases hxo.symm.trans hy
    exact hkept
  · obtain ⟨e, _, _, _, _, _, _, rfl⟩ := henq.made
    have hle := find_le h.queued hy
    rw [← hord] at hle
    exact absurd hle (Nat.not_succ_le_self _)

theorem withdrawn_of_retired (hy : b.find o = some y) (hs : y.state = .lifecycleRetired) :
    (b.phase o).withdrawn := by
  by_cases hc : b.Called o
  · rw [phase_retired hy hs hc]
    rfl
  · rw [phase_owed hy hs hc]
    rfl

/-- A sweep withdraws what it covers, but for an admitted job. -/
theorem withdrawn_of_sweep {scope : Scope} (h : Inv cfg b)
    (hl : b'.lanes = fun lane => (b.lanes lane).filterMap (sweptSlot scope))
    (hnext : b.nextOrdinal ≤ b'.nextOrdinal) (hadmission : b.pc.admission? = none)
    (hy : b.find o = some y) (hc : scope.covers y) : (b'.phase o).withdrawn := by
  have hfind : b'.find o = sweptSlot scope y := by
    rw [find_sweep hl h.queued, hy]
    rfl
  have hle : o ≤ b'.nextOrdinal := Nat.le_trans (find_le h.queued hy) hnext
  unfold sweptSlot at hfind
  rw [hc] at hfind
  cases hs : y.state <;> simp only [hs] at hfind
  case rawQueued =>
      rw [phase_gone hfind hle]
      rfl
  case admitted =>
      obtain ⟨a, ha, -⟩ := h.hand.admitted y (findJob_mem hy).1 hs
      cases hadmission.symm.trans ha
  case terminal =>
      have hkept : b'.find o = some y := hfind
      unfold phase jobPhase
      rw [hkept]
      dsimp only
      rw [hs]
      rfl
  case lifecycleRetired => exact withdrawn_of_retired hfind hs
  all_goals exact withdrawn_of_retired hfind rfl

/-- A delivered lifecycle response is being completed, and its sweep is to come. -/
inductive Rotating (b : Board) (lifecycle : ControlLifecycle) : Nat → Prop
  | settling {a : Admission} {x : Slot} :
      b.pc = .settling a true true → a.lifecycleTerminalSuccess →
      b.find a.ref.ingressOrdinal = some x → x.state = .admitted →
      x.controlLifecycle = lifecycle → b.bindingGeneration ≠ maxUint64 →
        Rotating b lifecycle (b.bindingGeneration + 1)
  | sweeping {successor : Nat} :
      b.pc = .sweeping lifecycle successor → Rotating b lifecycle successor

theorem lifecycleScope_isSome (haccepted : lifecycle.accepted) (hkind : lifecycle.kind ≠ .none)
    (hpos : 0 < successor) : lifecycleScope lifecycle successor ≠ none := by
  unfold lifecycleScope
  rw [haccepted, if_neg (by simpa using Nat.ne_of_gt hpos)]
  cases hk : lifecycle.kind
  · exact absurd hk hkind
  all_goals nofun

/-- **The rotation goes on to its sweep, and prepares nothing before it.** -/
theorem Rotating.move (h : Rotating b lifecycle successor)
    (hm : Move cfg b l b') (hinv : Inv cfg b) (hcfg : cfg.controlLifecycle.isSome)
    (hscope : lifecycleScope lifecycle successor ≠ none) :
    (Rotating b' lifecycle successor ∨ b.pc = .sweeping lifecycle successor ∧
      b'.lanes = fun lane => (b.lanes lane).filterMap
        (sweptSlot (.lifecycle lifecycle successor))) ∧ ∀ o, ¬l.prepares o := by
  have hturns : l.turns = false → ∀ o, ¬l.prepares o := by
    intro hl o hp
    cases l <;> first | cases hp | cases hl
  have hinv' := hinv.move hm
  cases h with
  | @settling a x hpc hsuccess hx hs hlc hgen =>
    have hbarrier : b.pc.barrier := by
      rw [hpc]
      exact hsuccess
    cases hm.serves with
    | keep hl hpc' hsame =>
      refine ⟨.inl ?_, hturns hl⟩
      rw [← hsame.generation] at hgen ⊢
      refine .settling (hpc'.trans hpc) hsuccess ?_ hs hlc hgen
      rcases hm.admitted hinv hx hs with hx' | hnone
      · exact hx'
      · obtain ⟨y, hy, hord, -⟩ := hinv'.hand.admission a (by rw [hpc', hpc]; rfl)
        exact absurd hord (findJob_eq_none.1 hnone y hy)
    | plain _ hfalse | admits _ hfalse =>
      cases hbarrier.symm.trans hfalse
    | settle _ hpc₂ happly =>
      cases hpc.symm.trans hpc₂
      unfold applies at happly
      rw [hsuccess, hcfg] at happly
      simp [hgen] at happly
    | rotate hl hpc₂ hx₂ _ hpc' =>
      cases hpc.symm.trans hpc₂
      cases hx.symm.trans hx₂
      rw [hlc] at hpc'
      subst hl
      exact ⟨.inl (.sweeping hpc'), nofun⟩
    | send _ hpc₂ | complete _ hpc₂ | sweep _ hpc₂ | unswept _ hpc₂ | retired _ hpc₂
    | publish _ hpc₂ | release _ hpc₂ => cases hpc.symm.trans hpc₂
  | sweeping hpc =>
    have hbarrier : b.pc.barrier := by
      rw [hpc]
      rfl
    cases hm.serves with
    | keep hl hpc' => exact ⟨.inl (.sweeping (hpc'.trans hpc)), hturns hl⟩
    | plain _ hfalse | admits _ hfalse =>
      cases hbarrier.symm.trans hfalse
    | sweep hl hpc₂ _ hlanes =>
      cases hpc.symm.trans hpc₂
      exact ⟨.inr ⟨hpc, hlanes⟩, hturns hl⟩
    | unswept _ hpc₂ hnone =>
      cases hpc.symm.trans hpc₂
      exact absurd hnone hscope
    | send _ hpc₂ | complete _ hpc₂ | settle _ hpc₂ | rotate _ hpc₂ | retired _ hpc₂
    | publish _ hpc₂ | release _ hpc₂ => cases hpc.symm.trans hpc₂

/-- Work which the rotation has withdrawn, or will. -/
inductive Fenced (b : Board) (lifecycle : ControlLifecycle) (o : Nat) : Prop
  | withdrawn : (b.phase o).withdrawn → Fenced b lifecycle o
  | doomed {successor : Nat} {y : Slot} : Rotating b lifecycle successor →
      b.find o = some y → y.lane ≠ some .control → y.bindingGeneration < successor →
      lifecycle.routeMatches y.route → Fenced b lifecycle o

/-- **Fenced work stays so, and is not prepared.** -/
theorem Fenced.move (h : Fenced b lifecycle o) (hm : Move cfg b l b') (hinv : Inv cfg b)
    (hcfg : cfg.controlLifecycle.isSome) (haccepted : lifecycle.accepted)
    (hkind : lifecycle.kind ≠ .none) : Fenced b' lifecycle o ∧ ¬l.prepares o := by
  cases h with
  | withdrawn hp =>
    obtain ⟨hp', -, hl⟩ := (phase_move (o := o) hm hinv).withdrawn hp
    exact ⟨.withdrawn hp', hl⟩
  | doomed hrot hy hlane hgen hroute =>
    have hscope := lifecycleScope_isSome haccepted hkind (Nat.zero_lt_of_lt hgen)
    obtain ⟨hnext, hl⟩ := hrot.move hm hinv hcfg hscope
    refine ⟨?_, hl o⟩
    rcases hnext with hrot' | ⟨hpc, hlanes⟩
    · rcases hm.find_kept hinv hy with hnone | ⟨y', hy', hkept⟩
      · refine .withdrawn ?_
        rw [phase_gone hnone (Nat.le_trans (find_le hinv.queued hy) hm.nextOrdinal_le)]
        rfl
      · refine .doomed hrot' hy' (by rw [hkept.lane]; exact hlane) ?_
          (by rw [hkept.route]; exact hroute)
        rw [hkept.generation hlane]
        exact hgen
    · refine .withdrawn (withdrawn_of_sweep hinv hlanes hm.nextOrdinal_le (by rw [hpc]; rfl) hy ?_)
      unfold Scope.covers
      dsimp only
      rw [hroute, decide_eq_true hgen, bne_iff_ne.2 hlane]
      rfl

/-! ## Work which was in the queues -/

/-- At some time of the run the submission was in this lane, on this route. -/
def WasQueued (cfg : Config) (epoch : Nat) (ops : List Op) (o : Nat) (lane : Lane)
    (route : Route) : Prop :=
  ∃ ops₀ ops₁, ops = ops₀ ++ ops₁ ∧ ∃ x ∈ (reached cfg epoch ops₀).jobs cfg lane,
    x.ingressOrdinal = o ∧ x.route = route

/-- Interrupt work carries no later generation than the scheduler's own. -/
def Stamped (cfg : Config) (b : Board) : Prop :=
  cfg.controlLifecycle.isSome → ∀ lane, lane ≠ .control → ∀ x ∈ b.lanes lane,
    x.bindingGeneration ≤ b.bindingGeneration

section Queues

variable {lane : Lane} {route : Route}

theorem Serves.generation_le (h : Serves cfg b l b') :
    b.bindingGeneration ≤ b'.bindingGeneration := by
  cases h with
  | admits _ _ _ _ hg | publish _ _ _ _ hg | release _ _ _ _ hg => exact Nat.le_of_eq hg.symm
  | rotate _ _ _ _ _ _ hg => exact hg ▸ Nat.le_succ _
  | keep _ _ hsame | plain _ _ _ hsame | send _ _ _ hsame | complete _ _ _ hsame
  | settle _ _ _ _ hsame | sweep _ _ _ _ hsame | unswept _ _ _ _ hsame | retired _ _ _ hsame =>
    exact Nat.le_of_eq hsame.generation.symm

theorem Enqueues.stamped (h : Enqueues cfg b l b' lane x)
    (hcfg : cfg.controlLifecycle.isSome) (hlane : lane ≠ .control) :
    x.bindingGeneration = b.bindingGeneration ∧
      x.route.alternateSetting = b.activeAlternateSetting ∧ b.activeConfiguration ≠ 0 := by
  obtain ⟨e, requireReservation, _, _, _, helane, hok, rfl⟩ := h.made
  have hroute := (b.refusal_eq_none cfg hok).route
  have hcontrol : e.lane ≠ some .control := by
    rw [helane]
    exact fun h => hlane (Option.some.inj h)
  have hstamp : b.stamp cfg e = { e with bindingGeneration := b.bindingGeneration } := if_pos hcfg
  unfold routeInactive at hroute
  rw [hcfg, bne_iff_ne.2 hcontrol] at hroute
  simp only [Bool.true_and, Bool.or_eq_false_iff, beq_eq_false_iff_ne, bne_eq_false_iff_eq]
    at hroute
  rw [hstamp]
  exact ⟨rfl, hroute.2, hroute.1⟩

theorem Stamped.move (hm : Move cfg b l b') (hinv : Inv cfg b) (h : Stamped cfg b) :
    Stamped cfg b' := by
  intro hcfg lane hlane y hy
  rcases hm.origin hy with ⟨x, hx, hkept⟩ | henq
  · have hcontrol : x.lane ≠ some .control := by
      rw [(hinv.queued.job lane x hx).home]
      exact fun h => hlane (Option.some.inj h)
    rw [hkept.generation hcontrol]
    exact Nat.le_trans (h hcfg lane hlane x hx) hm.serves.generation_le
  · rw [(henq.stamped hcfg hlane).1]
    exact hm.serves.generation_le

theorem stamped_run (cfg : Config) (epoch : Nat) (ops : List Op) :
    Stamped cfg ((reached cfg epoch ops).view cfg) := by
  refine labels_rule (P := fun _ b => Stamped cfg b) ?_
    (fun _ _ _ _ hinv hm h => h.move hm hinv) ops
  intro _ lane _ x hx
  cases hx

/-- A submission which was queued is gone, or still in its lane and on its route. -/
theorem WasQueued.find (h : WasQueued cfg epoch ops o lane route) :
    o ≤ (reached cfg epoch ops).nextOrdinal ∧
      ∀ y, ((reached cfg epoch ops).view cfg).find o = some y →
        y ∈ ((reached cfg epoch ops).view cfg).lanes lane ∧ y.route = route := by
  obtain ⟨ops₀, ops₁, rfl, x, hx, hord, hroute⟩ := h
  have hrep := reached_rep cfg epoch ops₀
  have hsplit : reached cfg epoch (ops₀ ++ ops₁) =
      final (step cfg) (reached cfg epoch ops₀) ops₁ := final_append ..
  rw [hsplit]
  refine (@invariant_final _ _ _ (step cfg) (fun s => Rep cfg s ∧ o ≤ s.nextOrdinal ∧
    ∀ y, (s.view cfg).find o = some y → y ∈ (s.view cfg).lanes lane ∧ y.route = route)
    (fun s op hs => ?_) _ ⟨hrep, ?_, fun y hy => ?_⟩ ops₁).2
  · have hsteps := step_refines hs.1 op
    have hle : o ≤ (s.view cfg).nextOrdinal := hs.2.1
    refine ⟨hs.1.steps hsteps, Nat.le_trans hle hsteps.move.nextOrdinal_le, fun y hy => ?_⟩
    obtain ⟨hmem, hyo⟩ := findJob_mem hy
    obtain ⟨lane', hlane'⟩ := mem_allJobs.1 hmem
    rcases hsteps.move.origin hlane' with ⟨z, hz, hkept⟩ | henq
    · have hfind : (s.view cfg).find o = some z := (find_eq_some hs.1.inv.queued).2
        ⟨mem_allJobs.2 ⟨lane', hz⟩, hkept.ordinal.symm.trans hyo⟩
      obtain ⟨hzlane, hzroute⟩ := hs.2.2 z hfind
      have hsame : lane' = lane := by
        have h₁ := (hs.1.inv.queued.job lane' z hz).home
        rw [(hs.1.inv.queued.job lane z hzlane).home] at h₁
        exact (Option.some.inj h₁).symm
      subst hsame
      exact ⟨hlane', hkept.route.trans hzroute⟩
    · obtain ⟨e, _, _, _, _, _, _, rfl⟩ := henq.made
      have hnew : (s.view cfg).nextOrdinal + 1 = o := hyo
      omega
  · rw [← hord]
    exact (hrep.inv.queued.job lane x hx).le
  · have hfind : ((reached cfg epoch ops₀).view cfg).find o = some x :=
      (find_eq_some hrep.inv.queued).2 ⟨mem_allJobs.2 ⟨lane, hx⟩, hord⟩
    cases hfind.symm.trans hy
    exact ⟨hx, hroute⟩

end Queues

/-! ## The barrier -/

/-- An enqueue which none of the checks before that of the barrier refuses. -/
structure Scheduler.ReachesBarrier (cfg : Config) (s : SlotScheduler) (e : Envelope)
    (requireReservation : Bool) : Prop where
  valid : validateEnvelope cfg e
  running : s.closed = false ∧ s.cancelled = false ∧ s.gateClosed cfg = false
  reserved : s.framingSequences.contains e.sequence = requireReservation
  unqueued : s.sequencePending cfg e.sequence = false
  counter : s.nextOrdinal ≠ maxUint64

/-- **While a lifecycle response is completed every enqueue is refused.** -/
theorem enqueue_barrier {s : SlotScheduler}
    (h : s.lifecycleCompletionPending) (e : Envelope) (requireReservation : Bool) :
    ∃ err, s.enqueue cfg e requireReservation = .error err ∧
      (s.ReachesBarrier cfg e requireReservation → err = .lifecycleCompletionPending) := by
  unfold Scheduler.enqueue
  split
  next lane hvalid hlane =>
    rcases hr : s.refusal cfg e requireReservation (s.sequencePending cfg e.sequence) with _ | err
    · rw [(s.refusal_eq_none cfg hr).barrier] at h
      cases h
    · refine ⟨err, rfl, fun hreach => ?_⟩
      obtain ⟨hclosed, hcancelled, hgate⟩ := hreach.running
      unfold Scheduler.refusal at hr
      rw [hclosed, hcancelled, hgate, hreach.reserved, hreach.unqueued,
        beq_eq_false_iff_ne.2 hreach.counter, h] at hr
      cases requireReservation <;> exact (Option.some.inj hr).symm
  next hnot =>
    refine ⟨_, rfl, fun hreach => ?_⟩
    obtain ⟨lane, hlane⟩ := validateEnvelope_lane hreach.valid
    exact absurd hlane (hnot lane hreach.valid)

/-! ## What a rotation leaves alone -/

/-- Work which a lifecycle request does not concern. -/
def ControlLifecycle.spares (lifecycle : ControlLifecycle) (x : Slot) : Bool :=
  x.lane == some .control || !lifecycle.routeMatches x.route

/-- Work which the token's holder does not touch in its next step of a rotation: all but
the response's own, and all but what the request concerns. -/
def System.spares {Q : Type} (s : System Q) (x : Slot) : Bool :=
  match s.pc with
  | .settling a _ _ => x.ingressOrdinal != a.ref.ingressOrdinal
  | .sweeping lifecycle _ | .swept lifecycle => lifecycle.spares x
  | _ => true

section Spared

variable {jobs : List Slot}

theorem Kept.spares (h : Kept x y) : lifecycle.spares y = lifecycle.spares x := by
  unfold ControlLifecycle.spares
  rw [h.lane, h.route]

theorem filter_drop {p : Slot → Bool} (h : ∀ x ∈ jobs, p x → x.ingressOrdinal ≠ k) :
    (dropJob k jobs).filter p = jobs.filter p := by
  unfold dropJob
  rw [filter_filter]
  refine filter_congr fun x hx => ?_
  cases hp : p x
  · rfl
  · exact decide_eq_true (h x hx hp)

theorem spares_of_covers
    (h : (Scope.lifecycle lifecycle successor).covers x) : lifecycle.spares x = false := by
  unfold Scope.covers at h
  rw [Bool.and_eq_true, Bool.and_eq_true, bne_iff_ne] at h
  unfold ControlLifecycle.spares
  rw [beq_eq_false_iff_ne.2 h.1.1, h.2]
  rfl

theorem covers_of_collects {scope : Scope} (h : collects scope x) : scope.covers x := by
  unfold collects at h
  simp only [Bool.and_eq_true] at h
  exact h.1.1.1.1

theorem filter_sweep :
    (jobs.filterMap (sweptSlot (.lifecycle lifecycle successor))).filter lifecycle.spares =
      jobs.filter lifecycle.spares := by
  induction jobs with
  | nil => rfl
  | cons x rest ih =>
    rcases sweptSlot_cases (.lifecycle lifecycle successor) x with
      ⟨hsw, -⟩ | ⟨hsw, -, hc, -⟩ | ⟨hsw, hc⟩
    · rw [filterMap_cons_some hsw, filter_cons, filter_cons, ih]
    · rw [filterMap_cons_none hsw, ih, filter_cons, spares_of_covers hc]
      rfl
    · have hcovers := covers_of_collects hc
      have hkept : lifecycle.spares (retireSlot x) = false :=
        (kept_state x _ _ _).spares.trans (spares_of_covers hcovers)
      rw [filterMap_cons_some hsw, filter_cons, filter_cons, ih, hkept, spares_of_covers hcovers]
      rfl

/-- What the token's holder removes when it goes on in a rotation. -/
theorem Move.barrier_lanes (hm : Move cfg b l b') (hbarrier : b.pc.barrier) (hne : b'.pc ≠ b.pc) :
    b'.lanes = b.lanes ∨ (∃ a delivered completed, b.pc = .settling a delivered completed ∧
        b'.lanes = fun lane => dropJob a.ref.ingressOrdinal (b.lanes lane)) ∨
      ∃ lifecycle successor, b.pc = .sweeping lifecycle successor ∧
        b'.lanes = fun lane => (b.lanes lane).filterMap
          (sweptSlot (.lifecycle lifecycle successor)) := by
  have hnot : ∀ pc : Pc, b.pc = pc → pc.barrier = false → False := by
    rintro pc rfl hfalse
    cases hbarrier.symm.trans hfalse
  cases hm with
  | calm _ hcalm => exact .inl hcalm.lanes
  | stage hpc | unstage hpc | pend hpc | admits hpc | claim hpc => exact (hnot _ hpc rfl).elim
  | settle hpc | rotate hpc => exact .inr (.inl ⟨_, _, _, hpc, rfl⟩)
  | sweep hby =>
    cases hby with
    | lifecycle hpc => exact .inr (.inr ⟨_, _, hpc, rfl⟩)
    | drain hpc => exact (hnot _ hpc rfl).elim
    | _ => exact absurd rfl hne
  | unlinkRaw hby | unlinkStaged hby => cases hby <;> exact absurd rfl hne
  | route _ hroute =>
    obtain ⟨_, _, _, rfl⟩ := route_spec hroute
    exact .inl rfl
  | enqueue | release => exact absurd rfl hne
  | _ => exact .inl rfl

end Spared

/-! ## The tickets a rotation retires -/

/-- The token's holder retires nothing which its lifecycle request does not concern. -/
def RetiresConcerned (b : Board) : Prop :=
  ∀ lifecycle, b.pc = .swept lifecycle → ∀ r ∈ (b.retiring .service).todo, ∀ x ∈ b.all,
    x.ingressOrdinal = r.ref.ingressOrdinal → lifecycle.spares x = false

/-- A job which a caller is to retire has been enqueued. -/
theorem Inv.todo_le (h : Inv cfg b) {c : Caller} {r : Retirement}
    (hr : r ∈ (b.retiring c).todo) : r.ref.ingressOrdinal ≤ b.nextOrdinal := by
  obtain ⟨x, hx, hkey, -⟩ := (h.owed.owed r.key).2 ⟨c, mem_map.2 ⟨r, hr, rfl⟩⟩
  have hord : x.ingressOrdinal = r.ref.ingressOrdinal := congrArg Prod.fst hkey
  rw [← hord]
  exact find_le h.queued ((find_eq_some h.queued).2 ⟨hx, rfl⟩)

/-- A job which was known by its ordinal before a move. -/
theorem Move.known (hm : Move cfg b l b') (hy : y ∈ b'.all)
    (hle : y.ingressOrdinal ≤ b.nextOrdinal) : ∃ x ∈ b.all, Kept x y := by
  obtain ⟨lane, hlane⟩ := mem_allJobs.1 hy
  rcases hm.origin hlane with ⟨x, hx, hkept⟩ | henq
  · exact ⟨x, mem_allJobs.2 ⟨lane, hx⟩, hkept⟩
  obtain ⟨e, _, _, _, _, _, _, rfl⟩ := henq.made
  exact absurd hle (Nat.not_succ_le_self _)

theorem RetiresConcerned.move (hm : Move cfg b l b') (hinv : Inv cfg b)
    (h : RetiresConcerned b) : RetiresConcerned b' := by
  intro lifecycle hpc' r hr y hy hord
  have hold : b.pc = .swept lifecycle → r ∈ (b.retiring .service).todo →
      lifecycle.spares y = false := by
    intro hpc hr
    obtain ⟨x, hx, hkept⟩ := hm.known hy (hord ▸ hinv.todo_le hr)
    rw [hkept.spares]
    exact h lifecycle hpc r hr x hx (hkept.ordinal.symm.trans hord)
  have hother : ∀ {c : Caller} {new : Retiring}, b'.retiring = update b.retiring c new →
      c ≠ .service → r ∈ (b.retiring .service).todo := by
    intro c new hret hne
    rw [hret, update_of_ne (Ne.symm hne)] at hr
    exact hr
  have hown : ∀ {c : Caller} {new : Retiring}, b'.retiring = update b.retiring c new →
      (∀ r ∈ new.todo, r ∈ (b.retiring c).todo) → r ∈ (b.retiring .service).todo := by
    intro c new hret hsub
    by_cases hc : c = .service
    · subst hc
      rw [hret, update_self] at hr
      exact hsub r hr
    · exact hother hret hc
  have hm' := hm
  cases hm with
  | calm _ hcalm =>
    refine hold ?_ (hcalm.retiring ▸ hr)
    have hquiet := hcalm.pc
    rw [hpc'] at hquiet
    generalize b.pc = pc at hquiet ⊢
    cases hquiet with
    | keep => rfl
    | plain _ hplain => cases hplain
  | @sweep b₁ c scope reason todo hby hkeys =>
    cases hby with
    | lifecycle hpc =>
      cases hpc'
      have hkey : r.key ∈ todo.map Retirement.key := mem_map.2 ⟨r, hr, rfl⟩
      rw [hkeys] at hkey
      obtain ⟨z, hz, hzkey⟩ := mem_map.1 hkey
      obtain ⟨hz, hc⟩ := mem_collected.1 hz
      have hzord : z.ingressOrdinal = r.ref.ingressOrdinal := congrArg Prod.fst hzkey
      have hzle := find_le hinv.queued ((find_eq_some hinv.queued).2 ⟨hz, rfl⟩)
      obtain ⟨x, hx, hkept⟩ := hm'.known hy (hord.trans hzord.symm ▸ hzle)
      have hsame : x = z :=
        hinv.queued.unique hx hz (hkept.ordinal.symm.trans (hord.trans hzord.symm))
      subst hsame
      rw [hkept.spares]
      exact spares_of_covers (covers_of_collects hc)
    | drain => cases hpc'
    | call | shutdown => exact hold hpc' (hother rfl nofun)
  | unlinkRaw hby | unlinkStaged hby =>
    cases hby with
    | _ => exact hold hpc' (hother rfl nofun)
  | retire => exact hold hpc' (hown rfl fun _ hr => hr)
  | release htodo =>
    refine hold hpc' (hown rfl fun r hr => ?_)
    rw [htodo]
    exact mem_cons_of_mem _ hr
  | enqueue | frame | finish | reply | abandon => exact hold hpc' hr
  | refuse _ _ _ _ hout =>
    rcases hout with ⟨-, rfl⟩ | ⟨-, rfl⟩ <;> cases hpc'
  | @settle a delivered completed x =>
    have hidle : (if a.lifecycleTerminalSuccess then Pc.routing x.controlLifecycle false
      else .idle) = .swept lifecycle := hpc'
    split at hidle <;> cases hidle
  | route _ hroute =>
    obtain ⟨_, _, _, rfl⟩ := route_spec hroute
    cases hpc'
  | _ => cases hpc'

/-! ## Over whole runs -/

/-- The token's holder is about to complete a lifecycle response which was delivered.
An exhausted generation makes the completion fail. -/
structure Delivers (cfg : Config) (s : SlotSystem) (lifecycle : ControlLifecycle)
    (a : Admission) : Prop where
  pc : s.pc = .completing a true
  success : a.lifecycleTerminalSuccess
  slot : ∃ x ∈ (s.view cfg).all, x.ingressOrdinal = a.ref.ingressOrdinal ∧
    x.controlLifecycle = lifecycle
  kind : lifecycle.kind ≠ .none
  counter : s.bindingGeneration ≠ maxUint64

/-- **Lifecycle rotation fences old interrupt work.** -/
structure LifecycleFence (cfg : Config) (epoch : Nat) (ops : List Op) : Prop where
  /-- Once the response is completed, interrupt work enqueued before it on a matching
  route is not prepared any more. -/
  fenced : ∀ ops₁ op ops₂ lifecycle a, ops = ops₁ ++ op :: ops₂ →
    Delivers cfg (reached cfg epoch ops₁) lifecycle a →
    ((reached cfg epoch ops₁).step cfg op).2 = .completed a.ref.ingressOrdinal a.ticket true true →
    ∀ o lane route, lane ≠ .control → lifecycle.routeMatches route →
      WasQueued cfg epoch ops₁ o lane route →
      ∀ e ∈ trace (System.step cfg) ((reached cfg epoch ops₁).step cfg op).1 ops₂,
        ¬e.out.prepares o
  /-- From the admission of the response to the publication of its routing every enqueue
  is refused, with the barrier's error unless an earlier check has another. -/
  refused : inBarrier (labels cfg epoch ops) → ∀ e requireReservation,
    ∃ err, (reached cfg epoch ops).toScheduler.enqueue cfg e requireReservation = .error err ∧
      ((reached cfg epoch ops).toScheduler.ReachesBarrier cfg e requireReservation →
        err = .lifecycleCompletionPending)
  /-- Interrupt work accepted next carries the generation of the last rotation, and is on
  the published routing. -/
  stamped : ∀ op lane x, lane ≠ .control →
    x ∈ ((reached cfg epoch ops).step cfg op).1.jobs cfg lane →
    x.ingressOrdinal = (reached cfg epoch ops).nextOrdinal + 1 →
      x.bindingGeneration = cfg.controlLifecycle.getD 0 +
        (labels cfg epoch ops).countP Label.isRotation ∧
      x.route.alternateSetting = (publishedRouting (labels cfg epoch ops)).2 ∧
      (publishedRouting (labels cfg epoch ops)).1 ≠ 0
  /-- The rotation leaves other interrupt work and control work as it is, in order. -/
  survives : ∀ op, (reached cfg epoch ops).pc.barrier →
    ((reached cfg epoch ops).step cfg op).1.pc ≠ (reached cfg epoch ops).pc ∨
      op = .release .service →
    ∀ lane, (((reached cfg epoch ops).step cfg op).1.jobs cfg lane).filter
      (reached cfg epoch ops).spares =
        ((reached cfg epoch ops).jobs cfg lane).filter (reached cfg epoch ops).spares

section Theorem

variable {s : SlotSystem}

theorem Move.completed_inv {ticket : Ticket} {delivered completed : Bool}
    (hm : Move cfg b (.completed o ticket delivered completed) b') :
    ∃ a, b.pc = .completing a delivered ∧ b' = b.setPc (.settling a delivered completed) := by
  cases hm with
  | calm hl | abandon hl => cases hl
  | complete hpc => exact ⟨_, hpc, rfl⟩
  | route _ hroute =>
    unfold System.route at hroute
    split at hroute <;> cases hroute

theorem Delivers.rotating {a : Admission} {ticket : Ticket} (h : Delivers cfg s lifecycle a)
    (hinv : Inv cfg (s.view cfg)) (hm : Move cfg (s.view cfg) (.completed o ticket true true) b') :
    Rotating b' lifecycle (s.bindingGeneration + 1) ∧ lifecycle.accepted ∧
      b' = (s.view cfg).setPc (.settling a true true) := by
  obtain ⟨a', hpc, rfl⟩ := hm.completed_inv
  obtain rfl : a = a' := by
    cases h.pc.symm.trans hpc
    rfl
  obtain ⟨x, hx, hord, hlc⟩ := h.slot
  obtain ⟨y, hy, hyord, hs, -, -, haccepted⟩ := hinv.hand.admission a (by rw [hpc]; rfl)
  obtain rfl : x = y := hinv.queued.unique hx hy (hord.trans hyord.symm)
  have hfind : (s.view cfg).find a.ref.ingressOrdinal = some x :=
    (find_eq_some hinv.queued).2 ⟨hx, hord⟩
  exact ⟨.settling rfl h.success hfind hs hlc h.counter, hlc ▸ haccepted h.success, rfl⟩

/-- Fenced work is not prepared in the rest of a run. -/
theorem fenced_trace (hrep : Rep cfg s)
    (h : Fenced (s.view cfg) lifecycle o) (hcfg : cfg.controlLifecycle.isSome)
    (haccepted : lifecycle.accepted) (hkind : lifecycle.kind ≠ .none) (ops : List Op) :
    ∀ e ∈ trace (step cfg) s ops, ¬e.out.prepares o := by
  refine @invariant_trace _ _ _ (step cfg)
    (fun s => Rep cfg s ∧ Fenced (s.view cfg) lifecycle o) (fun e => ¬e.out.prepares o)
    (fun s op hs => ?_) (fun s op hs => ?_) _ ⟨hrep, h⟩ ops
  · have hsteps := step_refines hs.1 op
    exact ⟨hs.1.steps hsteps, (hs.2.move hsteps.move hs.1.inv hcfg haccepted hkind).1⟩
  · exact (hs.2.move (step_refines hs.1 op).move hs.1.inv hcfg haccepted hkind).2

/-- What a release takes out of the lanes. -/
theorem release_lanes (h : Rep cfg s) (c : Caller) :
    ((s.releaseFirst cfg c).view cfg).lanes = (s.view cfg).lanes ∨
      ∃ r ∈ (s.retiring c).todo, ((s.releaseFirst cfg c).view cfg).lanes =
        fun lane => dropJob r.ref.ingressOrdinal ((s.view cfg).lanes lane) := by
  unfold releaseFirst
  dsimp only
  split
  next r rest htodo hcalled =>
    obtain ⟨x, hloc, hslot, hs, -⟩ := h.owed htodo
    unfold Scheduler.releaseRetired
    rw [hslot]
    dsimp only
    rw [if_pos (beq_iff_eq.2 hs)]
    refine .inr ⟨r, by rw [htodo]; exact mem_cons_self, ?_⟩
    exact congrArg (fun b : Board => b.lanes) (view_remove hloc h.tables)
  · exact .inl rfl

theorem concerned_run (cfg : Config) (epoch : Nat) (ops : List Op) :
    RetiresConcerned ((reached cfg epoch ops).view cfg) :=
  labels_rule (P := fun _ b => RetiresConcerned b) nofun
    (fun _ _ _ _ hinv hm h => h.move hm hinv) ops

/-- In a rotation the token's holder has tickets to retire only after its sweep. -/
theorem Inv.swept_of_todo (h : Inv cfg b) {r : Retirement} (hr : r ∈ (b.retiring .service).todo)
    (hbarrier : b.pc.barrier) : ∃ lifecycle, b.pc = .swept lifecycle := by
  have hwaits : b.pc.waits := by
    rcases hw : b.pc.waits
    · rw [h.owed.idle .service hw] at hr
      cases hr
    · rfl
  cases hpc : b.pc with
  | swept lifecycle => exact ⟨lifecycle, rfl⟩
  | failed | drained =>
    rw [hpc] at hbarrier
    cases hbarrier
  | _ =>
    rw [hpc] at hwaits
    cases hwaits

/-- A release of the token's holder in a rotation. -/
theorem release_spares (lane : Lane) (hbarrier : (reached cfg epoch ops).pc.barrier) :
    ((((reached cfg epoch ops).releaseFirst cfg .service).view cfg).lanes lane).filter
      (reached cfg epoch ops).spares =
        (((reached cfg epoch ops).view cfg).lanes lane).filter (reached cfg epoch ops).spares := by
  have hrep := reached_rep cfg epoch ops
  rcases release_lanes hrep .service with hsame | ⟨r, hr, hdrop⟩
  · rw [hsame]
  rw [hdrop]
  obtain ⟨lifecycle, hpc⟩ := hrep.inv.swept_of_todo hr hbarrier
  have hspares : (reached cfg epoch ops).spares = lifecycle.spares := by
    unfold spares
    rw [show (reached cfg epoch ops).pc = .swept lifecycle from hpc]
  rw [hspares]
  refine filter_drop fun x hx hspared hord => ?_
  have hmem : x ∈ ((reached cfg epoch ops).view cfg).all := mem_allJobs.2 ⟨lane, hx⟩
  cases (concerned_run cfg epoch ops lifecycle hpc r hr x hmem hord).symm.trans hspared

/-- A step of the token's holder in a rotation. -/
theorem rotation_spares (hm : Move cfg b l b') (lane : Lane) (hbarrier : b.pc.barrier)
    (hne : b'.pc ≠ b.pc) : (b'.lanes lane).filter b.spares = (b.lanes lane).filter b.spares := by
  rcases hm.barrier_lanes hbarrier hne with
    hsame | ⟨a, delivered, completed, hpc, hdrop⟩ | ⟨lifecycle, successor, hpc, hswept⟩
  · rw [hsame]
  · rw [hdrop]
    refine filter_drop fun x _ hspared => ?_
    unfold spares at hspared
    rw [hpc] at hspared
    exact bne_iff_ne.1 hspared
  · have hspares : b.spares = lifecycle.spares := by
      unfold spares
      rw [hpc]
    rw [hswept, hspares]
    exact filter_sweep

theorem lifecycle_fences (cfg : Config) (hcfg : cfg.controlLifecycle.isSome)
    (epoch : Nat) (ops : List Op) : LifecycleFence cfg epoch ops := by
  refine ⟨?_, fun hbarrier e requireReservation => ?_, fun op lane x hlane hx hord => ?_,
    fun op hbarrier hop lane => ?_⟩
  · intro ops₁ op ops₂ lifecycle a _ hdelivers hlabel o lane route hlane hroute hqueued
    have hrep := reached_rep cfg epoch ops₁
    have hsteps := step_refines hrep op
    have hmove := hsteps.move
    rw [hlabel] at hmove
    obtain ⟨hrot, haccepted, hb'⟩ := hdelivers.rotating hrep.inv hmove
    refine fenced_trace (hrep.steps hsteps) ?_ hcfg haccepted hdelivers.kind ops₂
    obtain ⟨hle, hkept⟩ := hqueued.find
    have hfind : (((reached cfg epoch ops₁).step cfg op).1.view cfg).find o =
        ((reached cfg epoch ops₁).view cfg).find o := by
      rw [hb']
      rfl
    rcases hy : ((reached cfg epoch ops₁).view cfg).find o with _ | y
    · refine .withdrawn ?_
      rw [phase_gone (hfind.trans hy) (Nat.le_trans hle hmove.nextOrdinal_le)]
      rfl
    · obtain ⟨hymem, hyroute⟩ := hkept y hy
      refine .doomed hrot (hfind.trans hy) ?_ ?_ (hyroute ▸ hroute)
      · rw [(hrep.inv.queued.job lane y hymem).home]
        exact fun h => hlane (Option.some.inj h)
      · exact Nat.lt_succ_of_le (stamped_run cfg epoch ops₁ hcfg lane hlane y hymem)
  · exact enqueue_barrier ((rotated_run cfg epoch ops).pending.trans hbarrier) e requireReservation
  · have hrep := reached_rep cfg epoch ops
    have hrot := rotated_run cfg epoch ops
    rcases (step_refines hrep op).move.origin hx with ⟨y, hy, hkept⟩ | henq
    · have hle := (hrep.inv.queued.job lane y hy).le
      rw [← hkept.ordinal, hord] at hle
      exact absurd hle (Nat.not_succ_le_self _)
    · obtain ⟨hgeneration, halternate, hconfiguration⟩ := henq.stamped hcfg hlane
      have hactive := hrot.routing
      refine ⟨hgeneration.trans hrot.generation, ?_, ?_⟩
      · rw [← hactive]
        exact halternate
      · rw [← hactive]
        exact hconfiguration
  · rcases hop with hne | rfl
    · exact rotation_spares (step_refines (reached_rep cfg epoch ops) op).move lane hbarrier hne
    · exact release_spares lane hbarrier

end Theorem

/-! ## A rotation -/

/-- The small scheduler with its control lifecycle configured. -/
def lifecycleConfig : Config :=
  { smallConfig with
    controlLifecycle := some 1
    controlLifecycle_ne := by decide }

/-- An accepted SET_CONFIGURATION. -/
def setConfiguration (sequence : UInt32) (value : UInt8) : Envelope where
  lane := some .control
  direction := some .dirOut
  sequence := sequence
  transferLength := 0
  setup := #v[0, 9, value, 0, 0, 0, 0, 0]
  bindingGeneration := 1
  controlLifecycle := { kind := .setConfiguration, accepted := true, configurationValue := value }

/-- An interrupt submission. -/
def interruptIn (sequence : UInt32) : Envelope where
  lane := some .interruptIn
  direction := some .dirIn
  sequence := sequence
  transferLength := 8
  route := ⟨0, 0, 0x81⟩
  bindingGeneration := 1

/-- A round which admits a response. -/
def admitRound (token : Nat) : List Op :=
  stageRound token ++ [.service {}, .service { preparation := some { result := .success } }]

/-- What follows it to the end of the rotation. -/
def completeRound : List Op :=
  [.service {}, .service {}, .service {}, .service {}, .service {}, .service {}]

/-- A configuration, then the admission of another, with interrupt work behind it. -/
def reconfigureRun : List Op :=
  .enqueue (setConfiguration 1 1) :: admitRound 1 ++ completeRound ++
    [.enqueue (setConfiguration 2 2), .enqueue (interruptIn 3)] ++ admitRound 2

/-- The second rotation sweeps the interrupt submission out before it is served. -/
theorem reconfigureRun_fenced : LifecycleFence lifecycleConfig 0 (reconfigureRun ++ completeRound) ∧
      (labels lifecycleConfig 0 (reconfigureRun ++ completeRound)).countP Label.isRotation = 2 ∧
      publishedRouting (labels lifecycleConfig 0 (reconfigureRun ++ completeRound)) = (2, 0) ∧
      (labels lifecycleConfig 0 (reconfigureRun ++ completeRound)).countP (Label.enqueues 3) = 1 ∧
      ((reached lifecycleConfig 0 (reconfigureRun ++ completeRound)).jobs lifecycleConfig
        .interruptIn) = [] :=
  ⟨lifecycle_fences lifecycleConfig rfl 0 _, by decide +kernel⟩

/-- Within the barrier a sequence which is in use is refused as such: this check comes
before that of the barrier. -/
theorem duplicate_refused_in_barrier : lifecycleConfig.controlLifecycle.isSome ∧
      inBarrier (labels lifecycleConfig 0 reconfigureRun) ∧
      ((reached lifecycleConfig 0 reconfigureRun).step lifecycleConfig
        (.enqueue (interruptIn 3))).2 = .refused .duplicateSequence := by
  decide +kernel

end Viiper.Ports.Retained
