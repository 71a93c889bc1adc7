import Viiper.Ports.VirtualBus

/-!
# The ledger of the bus

The allocated ids, the registered devices and the lifecycles of all incarnations
are three views of one thing.  `Bus.Ledger` says how they agree; each critical
section which changes one of them keeps it.
-/

namespace Viiper.Ports.VirtualBus

open List

variable {δ : Type}

/-- The flags of a lifecycle are set in the order of a removal. -/
structure RegistrationLifecycle.Sane (l : RegistrationLifecycle δ) : Prop where
  marked : l.active = false → l.removing
  finished : l.removalDone → l.active = false
  cancelled : l.cancelled = !l.active

/-- The registered device `d` and its lifecycle. -/
structure Backs (d : BusDevice δ) (l : RegistrationLifecycle δ) : Prop where
  active : l.active
  dev : l.dev = d.dev
  exportMeta : l.exportMeta = d.exportMeta
  token : l.token = d.registrationToken

namespace Bus

variable {vb : Bus δ}

structure Ledger (vb : Bus δ) : Prop where
  allocated : ∀ id, id ∈ vb.allocatedDevIDs ↔ ∃ d ∈ vb.devices, d.exportMeta.devID = id
  positive : ∀ d ∈ vb.devices, 1 ≤ d.exportMeta.devID
  ids : (vb.devices.map (·.exportMeta.devID)).Nodup
  devs : (vb.devices.map (·.dev)).Nodup
  places : (vb.devices.map (·.lifecycle)).Nodup
  backed : ∀ d ∈ vb.devices, ∃ l, vb.lifecycles[d.lifecycle]? = some l ∧ Backs d l
  registered : ∀ i l, vb.lifecycles[i]? = some l → l.active →
    ∃ d ∈ vb.devices, d.lifecycle = i
  counted : vb.nextRegistrationToken = vb.lifecycles.length
  tokens : ∀ i l, vb.lifecycles[i]? = some l → l.token = i + 1
  sane : ∀ (i : Nat) (l : RegistrationLifecycle δ), vb.lifecycles[i]? = some l → l.Sane

theorem Ledger.new (busID : Nat) : Ledger ({ busID := busID } : Bus δ) where
  allocated := by simp
  positive := by simp
  ids := by simp
  devs := by simp
  places := by simp
  backed := by simp
  registered := by simp
  counted := rfl
  tokens := by simp
  sane := by simp

variable {d : BusDevice δ}

/-- Two registrations with one value of a key are one. -/
theorem eq_of_key {κ : Type} {key : BusDevice δ → κ} (h : (vb.devices.map key).Nodup)
    {d' : BusDevice δ} (hd : d ∈ vb.devices) (hd' : d' ∈ vb.devices) (heq : key d = key d') :
    d = d' :=
  inj_on_of_nodup_map h hd hd' heq

/-- A lookup by a key which no two devices share finds the device with that key. -/
theorem discover_key {κ : Type} [DecidableEq κ] {key : BusDevice δ → κ}
    (h : (vb.devices.map key).Nodup) (hd : d ∈ vb.devices)
    (hshown : vb.deviceDiscoverableLocked d) : vb.discover (fun d' => key d' = key d) = some d := by
  cases hf : vb.discover fun d' => key d' = key d with
  | none => simpa [hshown] using find?_eq_none.1 hf d hd
  | some d' =>
    have hkey := find?_some hf
    simp only [Bool.and_eq_true, decide_eq_true_eq] at hkey
    rw [eq_of_key h (mem_of_find?_eq_some hf) hd hkey.2]

/-- The address of an Add is the least which is free. -/
theorem nextAvailable_eq_some {maxDeviceID devID : Nat} :
    vb.nextAvailableDeviceIDLocked maxDeviceID = some devID ↔
      (1 ≤ devID ∧ devID ≤ maxDeviceID) ∧ devID ∉ vb.allocatedDevIDs ∧
        ∀ j, 1 ≤ j → j < devID → j ∈ vb.allocatedDevIDs := by
  rw [nextAvailableDeviceIDLocked, find?_range'_eq_some, mem_range'_1]
  simp only [decide_eq_true_eq, Bool.not_eq_eq_eq_not, Bool.not_true, decide_eq_false_iff_not,
    not_not]
  constructor
  · rintro ⟨hfree, ⟨hlo, hhi⟩, hleast⟩
    exact ⟨⟨hlo, by omega⟩, hfree, hleast⟩
  · rintro ⟨⟨hlo, hhi⟩, hfree, hleast⟩
    exact ⟨hfree, ⟨hlo, by omega⟩, hleast⟩

section Ledger

variable (h : Ledger vb)

include h

theorem Ledger.lt (hd : d ∈ vb.devices) : d.lifecycle < vb.lifecycles.length := by
  obtain ⟨l, hl, -⟩ := h.backed d hd
  exact (List.getElem?_eq_some_iff.1 hl).1

/-! ## Lifecycles whose flags change -/

/-- A change of flags which leaves the active ones alone. -/
theorem Ledger.flags {f : Nat → RegistrationLifecycle δ → RegistrationLifecycle δ}
    (hactive : ∀ i l, vb.lifecycles[i]? = some l → (f i l).active = l.active ∧
      (f i l).dev = l.dev ∧ (f i l).exportMeta = l.exportMeta ∧ (f i l).token = l.token ∧
      (f i l).Sane) :
    Ledger { vb with lifecycles := vb.lifecycles.mapIdx f } := by
  have hget : ∀ i l', ({ vb with lifecycles := vb.lifecycles.mapIdx f } : Bus δ).lifecycles[i]? =
      some l' → ∃ l, vb.lifecycles[i]? = some l ∧ f i l = l' := by
    intro i l' hl
    rw [getElem?_mapIdx] at hl
    exact Option.map_eq_some_iff.1 hl
  exact
    { h with
      backed := fun d hd => by
        obtain ⟨l, hl, hb⟩ := h.backed d hd
        obtain ⟨ha, hdev, hmeta, htoken, -⟩ := hactive _ l hl
        exact ⟨f d.lifecycle l, by rw [getElem?_mapIdx, hl]; rfl, ha.trans hb.active,
          hdev.trans hb.dev, hmeta.trans hb.exportMeta, htoken.trans hb.token⟩
      registered := fun i l' hl ha => by
        obtain ⟨l, hold, rfl⟩ := hget i l' hl
        exact h.registered i l hold ((hactive i l hold).1.symm.trans ha)
      counted := by rw [length_mapIdx]; exact h.counted
      tokens := fun i l' hl => by
        obtain ⟨l, hold, rfl⟩ := hget i l' hl
        exact (hactive i l hold).2.2.2.1.trans (h.tokens i l hold)
      sane := fun i l' hl => by
        obtain ⟨l, hold, rfl⟩ := hget i l' hl
        exact (hactive i l hold).2.2.2.2 }

theorem Ledger.mark (marked : List Nat) : Ledger (vb.markRegistrationRemovalLocked marked) := by
  refine h.flags fun i l hl => ?_
  have hs := h.sane i l hl
  split
  · exact ⟨rfl, rfl, rfl, rfl, fun _ => rfl, hs.finished, hs.cancelled⟩
  · exact ⟨rfl, rfl, rfl, rfl, hs⟩

theorem Ledger.signal {place : Nat}
    (hgone : ∀ l, vb.lifecycles[place]? = some l → l.active = false) :
    Ledger (vb.closeRemovalDone place) := by
  refine h.flags fun i l hl => ?_
  have hs := h.sane i l hl
  split
  · subst i
    exact ⟨rfl, rfl, rfl, rfl, hs.marked, fun _ => hgone l hl, hs.cancelled⟩
  · exact ⟨rfl, rfl, rfl, rfl, hs⟩

/-! ## Removal -/

/-- The device of a marked lifecycle is taken out. -/
def without (vb : Bus δ) (d : BusDevice δ) : Bus δ :=
  { vb with
    allocatedDevIDs := vb.allocatedDevIDs.filter (· ≠ d.exportMeta.devID)
    devices := vb.devices.filter fun d' => d'.lifecycle ≠ d.lifecycle
    lifecycles := vb.lifecycles.mapIdx fun i l =>
      if i = d.lifecycle then { l with active := false, cancelled := true } else l }

theorem Ledger.finish_eq (hd : d ∈ vb.devices) :
    vb.finishMarkedRegistrationRemoval d.lifecycle = vb.without d := by
  unfold finishMarkedRegistrationRemoval
  cases hfind : vb.devices.find? fun d' => d'.lifecycle = d.lifecycle with
  | none => exact absurd (find?_eq_none.1 hfind d hd) (by simp)
  | some d' =>
    have hkey : d'.lifecycle = d.lifecycle := by simpa using find?_some hfind
    obtain rfl : d' = d := eq_of_key h.places (mem_of_find?_eq_some hfind) hd hkey
    rfl

theorem Ledger.without (hd : d ∈ vb.devices)
    (hmarked : ∀ l, vb.lifecycles[d.lifecycle]? = some l → l.removing) : Ledger (vb.without d) := by
  have hget : ∀ i l', (vb.without d).lifecycles[i]? = some l' → ∃ l, vb.lifecycles[i]? = some l ∧
      (if i = d.lifecycle then { l with active := false, cancelled := true } else l) = l' := by
    intro i l' hl
    rw [Bus.without, getElem?_mapIdx] at hl
    exact Option.map_eq_some_iff.1 hl
  have hmem : ∀ d', d' ∈ (vb.without d).devices ↔ d' ∈ vb.devices ∧ d'.lifecycle ≠ d.lifecycle := by
    simp [Bus.without]
  have hsub : (vb.without d).devices.Sublist vb.devices := filter_sublist
  refine ⟨fun id => ?_, fun d' hd' => h.positive d' ((hmem d').1 hd').1,
    h.ids.sublist (hsub.map _), h.devs.sublist (hsub.map _), h.places.sublist (hsub.map _),
    fun d' hd' => ?_, fun i l' hl ha => ?_, ?_, fun i l' hl => ?_, fun i l' hl => ?_⟩
  · -- an id is freed exactly when its device is taken out
    change id ∈ vb.allocatedDevIDs.filter _ ↔ _
    rw [mem_filter, h.allocated]
    constructor
    · rintro ⟨⟨d', hd', rfl⟩, hne⟩
      refine ⟨d', (hmem d').2 ⟨hd', fun hkey => ?_⟩, rfl⟩
      obtain rfl := eq_of_key h.places hd' hd hkey
      simp at hne
    · rintro ⟨d', hd', rfl⟩
      obtain ⟨hin, hne⟩ := (hmem d').1 hd'
      refine ⟨⟨d', hin, rfl⟩, ?_⟩
      simpa using fun hid => hne (congrArg _ (eq_of_key h.ids hin hd hid))
  · obtain ⟨hin, hne⟩ := (hmem d').1 hd'
    obtain ⟨l, hl, hb⟩ := h.backed d' hin
    refine ⟨l, ?_, hb⟩
    rw [Bus.without, getElem?_mapIdx, hl, Option.map_some, if_neg hne]
  · obtain ⟨l, hold, rfl⟩ := hget i l' hl
    by_cases hi : i = d.lifecycle
    · simp [hi] at ha
    · rw [if_neg hi] at ha
      obtain ⟨d', hd', rfl⟩ := h.registered i l hold ha
      exact ⟨d', (hmem d').2 ⟨hd', hi⟩, rfl⟩
  · exact h.counted.trans length_mapIdx.symm
  · obtain ⟨l, hold, rfl⟩ := hget i l' hl
    split <;> exact h.tokens i l hold
  · obtain ⟨l, hold, rfl⟩ := hget i l' hl
    split
    · subst i
      exact ⟨fun _ => hmarked l hold, fun _ => rfl, rfl⟩
    · exact h.sane i l hold

/-! ## Registration -/

/-- Publication changes no key of a registration. -/
theorem Ledger.publish (p : BusDevice δ → Bool) : Ledger { vb with
      devices := vb.devices.map fun d => if p d then { d with published := true } else d } := by
  have hkey : ∀ {κ : Type} (key : BusDevice δ → κ), (∀ d b, key { d with published := b } = key d) →
      (vb.devices.map fun d => if p d then { d with published := true } else d).map key =
        vb.devices.map key := by
    intro κ key hk
    rw [map_map]
    refine map_congr_left fun d _ => ?_
    simp only [Function.comp_apply]
    split
    · exact hk d true
    · rfl
  have hmem : ∀ {κ : Type} (key : BusDevice δ → κ)
      (_ : ∀ d b, key { d with published := b } = key d)
      (k : κ), (∃ d ∈ vb.devices.map (fun d => if p d then { d with published := true } else d),
        key d = k) ↔ ∃ d ∈ vb.devices, key d = k := by
    intro κ key hk k
    rw [← mem_map, hkey key hk, mem_map]
  refine { h with
    allocated := fun id =>
      (h.allocated id).trans (hmem (·.exportMeta.devID) (fun _ _ => rfl) id).symm
    positive := fun d hd => ?_
    ids := hkey (·.exportMeta.devID) (fun _ _ => rfl) ▸ h.ids
    devs := hkey (·.dev) (fun _ _ => rfl) ▸ h.devs
    places := hkey (·.lifecycle) (fun _ _ => rfl) ▸ h.places
    backed := fun d hd => ?_
    registered := fun i l hl ha =>
      (hmem (·.lifecycle) (fun _ _ => rfl) i).2 (h.registered i l hl ha) }
  · obtain ⟨d, hin, rfl⟩ := mem_map.1 hd
    split <;> exact h.positive d hin
  · obtain ⟨d, hin, rfl⟩ := mem_map.1 hd
    obtain ⟨l, hl, hb⟩ := h.backed d hin
    split
    · exact ⟨l, hl, hb.active, hb.dev, hb.exportMeta, hb.token⟩
    · exact ⟨l, hl, hb⟩

def withRegistration (vb : Bus δ) (device : BusDevice δ) : Bus δ :=
  { vb with
    allocatedDevIDs := device.exportMeta.devID :: vb.allocatedDevIDs
    nextRegistrationToken := vb.nextRegistrationToken + 1
    emptyCtx := none
    devices := vb.devices ++ [device]
    lifecycles := vb.lifecycles ++
      [{ dev := device.dev, exportMeta := device.exportMeta
         token := vb.nextRegistrationToken + 1 }] }

/-- What a successful Add has found. -/
structure Admits (vb : Bus δ) (dev : δ) (maxDeviceID devID : Nat) : Prop where
  opened : vb.closed = false
  token : vb.nextRegistrationToken ≠ maxUint64
  dev : ∀ d ∈ vb.devices, d.dev ≠ dev
  least : vb.nextAvailableDeviceIDLocked maxDeviceID = some devID

theorem Ledger.add {d : δ} {maxDeviceID devID : Nat}
    (ha : vb.Admits d maxDeviceID devID) (published : Bool) (exportBusID : Option String) :
    Ledger (vb.withRegistration (vb.newRegistration d published exportBusID devID)) := by
  obtain ⟨⟨hpos, -⟩, hfree, -⟩ := nextAvailable_eq_some.1 ha.least
  have hnew : ∀ d' ∈ vb.devices, d'.exportMeta.devID ≠ devID := fun d' hd' heq =>
    hfree ((h.allocated devID).2 ⟨d', hd', heq⟩)
  have hget : ∀ i l, (vb.withRegistration
        (vb.newRegistration d published exportBusID devID)).lifecycles[i]? = some l →
      vb.lifecycles[i]? = some l ∨ i = vb.lifecycles.length ∧ l.active ∧
        l.token = i + 1 ∧ l.Sane := by
    intro i l hl
    rw [withRegistration, getElem?_append] at hl
    split at hl
    · exact .inl hl
    have hi : i = vb.lifecycles.length := by
      have := (List.getElem?_eq_some_iff.1 hl).1
      simp at this
      omega
    subst hi
    rw [Nat.sub_self, getElem?_cons_zero, Option.some.injEq] at hl
    subst hl
    exact .inr ⟨rfl, rfl, by simp [h.counted], by simp, by simp, by simp⟩
  refine ⟨fun id => ?_, ?_, ?_, ?_, ?_, ?_, ?_, ?_, ?_, ?_⟩
  · simp only [withRegistration, mem_cons, mem_append, not_mem_nil, or_false,
      or_and_right, exists_or, exists_eq_left, h.allocated id]
    rw [or_comm]
    simp only [newRegistration, eq_comm]
  · intro d' hd'
    rcases mem_append.1 hd' with hd' | hd'
    · exact h.positive d' hd'
    · rw [mem_singleton.1 hd']
      exact hpos
  · simp only [withRegistration, map_append, map_cons, map_nil]
    exact h.ids.append (nodup_singleton _) (by simpa [newRegistration] using hnew)
  · simp only [withRegistration, map_append, map_cons, map_nil]
    exact h.devs.append (nodup_singleton _) (by simpa [newRegistration] using ha.dev)
  · simp only [withRegistration, map_append, map_cons, map_nil]
    refine h.places.append (nodup_singleton _) ?_
    simpa [newRegistration] using fun d' hd' => Nat.ne_of_lt (h.lt hd')
  · intro d' hd'
    rcases mem_append.1 hd' with hd' | hd'
    · obtain ⟨l, hl, hb⟩ := h.backed d' hd'
      exact ⟨l, by rw [withRegistration, getElem?_append_left (h.lt hd')]; exact hl, hb⟩
    · rw [mem_singleton.1 hd']
      exact ⟨_, by simp [withRegistration, newRegistration]; rfl, rfl, rfl, rfl, rfl⟩
  · intro i l hl hactive
    rcases hget i l hl with hold | ⟨rfl, -⟩
    · obtain ⟨d', hd', rfl⟩ := h.registered i l hold hactive
      exact ⟨d', mem_append_left _ hd', rfl⟩
    · exact ⟨_, mem_append_right _ (mem_singleton_self _), rfl⟩
  · simp [withRegistration, h.counted]
  · intro i l hl
    rcases hget i l hl with hold | ⟨-, -, ht, -⟩
    · exact h.tokens i l hold
    · exact ht
  · intro i l hl
    rcases hget i l hl with hold | ⟨-, -, -, hs⟩
    · exact h.sane i l hold
    · exact hs

end Ledger

variable [DecidableEq δ]

/-- An Add fails and changes nothing, or registers the device at the least free
address. -/
theorem addRegistration_cases (vb : Bus δ) (dev : Option δ) (published : Bool)
    (maxDeviceID : Nat) (exportBusID : Option String) :
    (∃ err, vb.addRegistration dev published maxDeviceID exportBusID = (vb, .error err)) ∨
    ∃ d devID, dev = some d ∧ vb.Admits d maxDeviceID devID ∧
      vb.addRegistration dev published maxDeviceID exportBusID =
        (vb.withRegistration (vb.newRegistration d published exportBusID devID),
          .ok (deviceMetaLocked (vb.newRegistration d published exportBusID devID))) := by
  unfold addRegistration
  cases dev with
  | none => exact .inl ⟨_, rfl⟩
  | some d =>
    dsimp only
    split
    · exact .inl ⟨_, rfl⟩
    split
    · exact .inl ⟨_, rfl⟩
    rename_i hclosed
    split
    · exact .inl ⟨_, rfl⟩
    rename_i htoken
    split
    · exact .inl ⟨_, rfl⟩
    rename_i hnew
    cases hnext : vb.nextAvailableDeviceIDLocked maxDeviceID with
    | none => exact .inl ⟨_, rfl⟩
    | some devID =>
      refine .inr ⟨d, devID, rfl, ⟨by simpa using hclosed, htoken, fun d' hd' heq => ?_, hnext⟩,
        rfl⟩
      cases hfind : vb.devices.find? fun d' =>
          d'.dev = d || some d'.exportMeta.usbBusID = exportBusID with
      | none => simpa [heq] using find?_eq_none.1 hfind d' hd'
      | some d'' => exact hnew _ hfind

end Bus

end Viiper.Ports.VirtualBus
