import Freemyipod.Usb.Control

/-!
# Usb.Requests

What holds of every sequence of SETUP packets, bus resets and shutdowns.

* `handle_spec`, `handle_names`: a step stays inside the arrays exactly if `NamesExisting`.
* `indices_in_range_iff`: so does a whole run.
* `callbacks_alternate`: the callbacks of a run come in the right order.
* `stalled_unchanged_iff`: which stalled request is not without effect.
-/

namespace Freemyipod
namespace Usb

open Effect

variable {d : Instance} {s t : State} {p : Setup} {e : Event} {r : Reply}

/-! ## Looking at the state -/

theorem reads_index {β : Type} (l : List β) (i : Nat) : Reads (index l i) :=
  fun _ _ h => (wp_index.1 h).imp fun _ hx => hx.2

theorem reads_usbFindEndpoint (ep : UInt8) : Reads (usbFindEndpoint d ep) := by
  refine Reads.get.bind fun s => ?_
  by_cases h0 : s.currentConfiguration = 0
  · simp only [h0, ↓reduceIte]
    exact .pure none
  · simp only [h0, ↓reduceIte]
    refine (reads_index _ _).bind fun c => .loopUntil (fun ifidx => ?_) _ _
    refine (reads_index _ _).bind fun f => Reads.get.bind fun s =>
      (reads_index _ _).bind fun a => .loopUntil (fun epidx => ?_) _ _
    exact (reads_index _ _).bind fun x => .pure _

theorem usbFindEndpoint_spec (h : InRange d s) (ep : UInt8) :
    Wp (usbFindEndpoint d ep) s fun _ t => t = s := by
  simp only [usbFindEndpoint, wp_bind, wp_get, wp_ite, wp_pure]
  refine ⟨fun _ => trivial, fun h0 => ?_⟩
  obtain ⟨c, hc, hactive⟩ := h.active h0
  simp only [wp_index, hc, Option.some.injEq, exists_eq_left']
  refine wp_loopUntil_same fun i _ hi => ?_
  obtain ⟨f, hf⟩ := exists_getElem? (l := c.interfaces) (i := i) (by omega)
  obtain ⟨a, ha⟩ := exists_getElem? (h.altsetting c hactive i f hf)
  simp only [findInInterface, wp_bind, wp_index, wp_get, hf, ha, Option.some.injEq,
    exists_eq_left']
  refine wp_loopUntil_same fun j _ hj => ?_
  obtain ⟨x, hx⟩ := exists_getElem? (l := a.endpoints) (i := j) (by omega)
  simp only [wp_bind, wp_index, hx, Option.some.injEq, exists_eq_left', wp_pure]

/-! ## One step -/

theorem wp_usbSetStall {ep : UInt8} {stall : Bool} {Q : Unit → State → Prop} :
    Wp (usbSetStall ep stall) s Q ↔
      Q () { s with stall := Function.update s.stall (endpointOf ep) stall } := wp_modify _ _ _

theorem Inv.stalled (h : Inv d s) (stall : UInt8 → Bool) : Inv d { s with stall := stall } :=
  h.congr rfl rfl rfl

theorem reply_spec (h : Inv d s) (answer : Answer) :
    Wp (reply answer) s fun _ t => Inv d t := by
  simp only [reply, wp_ite, wp_bind, wp_usbSetStall, wp_pure]
  exact ⟨fun _ => h.stalled _, fun _ => ⟨fun _ => h, fun _ => (h.stalled _).stalled _⟩⟩

theorem getDescriptor_spec (h : Inv d s)
    (hs : p.wLength ≠ 0 → p.wValue.toNat / 256 = 3 →
      p.wValue.toNat % 256 ≠ d.stringdescriptors.length) :
    Wp (getDescriptor d p) s fun _ t => Inv d t := by
  unfold getDescriptor
  refine wp_ite.2 ⟨fun _ => (wp_pure _ _ _).2 h, fun hl => ?_⟩
  simp only [wp_bind, wp_pure, descriptor]
  split
  · simp only [wp_ite, wp_pure]
    exact ⟨fun _ => h, fun _ => h⟩
  · simp only [wp_ite, wp_pure, wp_bind, wp_index]
    refine ⟨fun _ => h, fun hlt => ?_⟩
    obtain ⟨c, hc⟩ := exists_getElem? (l := d.configurations) (i := p.wValue.toNat % 256)
      (by omega)
    exact ⟨c, hc, h⟩
  · rename_i h3
    simp only [wp_ite, wp_pure, wp_bind, wp_index]
    refine ⟨fun _ => h, fun hlt => ?_⟩
    have hne := hs hl h3
    obtain ⟨c, hc⟩ := exists_getElem? (l := d.stringdescriptors) (i := p.wValue.toNat % 256)
      (by omega)
    exact ⟨c, hc, h⟩
  · exact (wp_pure _ _ _).2 h

theorem deviceRequest_spec (h : Inv d s) (hp : p.recipient = .device)
    (hok : SetupExisting d s p) : Wp (deviceRequest d p) s fun _ t => Inv d t := by
  simp only [deviceRequest, wp_bind, wp_get]
  refine wp_ite.2 ⟨fun _ => (wp_pure _ _ _).2 h, fun hstd => ?_⟩
  rw [not_not] at hstd
  split
  · simp only [wp_ite, wp_pure]
    exact ⟨fun _ => h, fun _ => h⟩
  · simp only [wp_ite, wp_pure, wp_bind, wp_set]
    exact ⟨fun _ => h, fun _ => h.congr rfl rfl rfl⟩
  · rename_i hreq
    exact getDescriptor_spec h fun hl => hok.string hp hstd hreq hl
  · simp only [wp_ite, wp_pure]
    exact ⟨fun _ => h, fun _ => h⟩
  · simp only [wp_ite, wp_pure]
    refine ⟨fun _ => h, fun hc => (setConfiguration_spec h ?_).mono fun _ _ hq => hq.2⟩
    exact Nat.le_of_not_lt fun hlt => hc (.inr (.inr (.inr hlt)))
  · exact (wp_pure _ _ _).2 h

theorem interfaceRequest_spec (h : Inv d s) (hp : p.recipient = .interface)
    (hok : SetupExisting d s p) : Wp (interfaceRequest d p) s fun _ t => Inv d t := by
  simp only [interfaceRequest, wp_bind, wp_get]
  refine wp_ite.2 ⟨fun _ => (wp_pure _ _ _).2 h, fun h0 => ?_⟩
  obtain ⟨c, hc, hactive⟩ := h.range.active h0
  simp only [wp_bind, wp_index, hc, Option.some.injEq, exists_eq_left']
  refine wp_ite.2 ⟨fun _ => (wp_pure _ _ _).2 h, fun hi => ?_⟩
  obtain ⟨f, hf⟩ := exists_getElem? (Nat.lt_of_not_le hi)
  simp only [wp_bind, wp_index, hf, Option.some.injEq, exists_eq_left']
  refine wp_ite.2 ⟨fun _ => (wp_pure _ _ _).2 h, fun hstd => ?_⟩
  rw [not_not] at hstd
  split
  · simp only [wp_ite, wp_pure]
    exact ⟨fun _ => h, fun _ => h⟩
  · simp only [wp_ite, wp_pure]
    exact ⟨fun _ => h, fun _ => h⟩
  · rename_i hreq
    rw [wp_setInterface]
    split
    · exact h
    · rename_i hacc
      have hl : p.wLength = 0 := by
        by_contra hl
        exact hacc (.inl hl)
      have hne := hok.altsetting hp hstd hreq hl c f hactive hf
      obtain ⟨a, ha⟩ := exists_getElem? (h.range.altsetting c hactive _ f hf)
      obtain ⟨b, hb⟩ := exists_getElem? (l := f.altsettings) (i := p.wValue.toNat) (by
        have := Nat.le_of_not_lt fun hlt => hacc (.inr hlt)
        omega)
      exact ⟨a, b, ha, hb, h.switched hactive h0 hf ha hb⟩
  · exact (wp_pure _ _ _).2 h

theorem endpointRequest_spec (h : Inv d s) : Wp (endpointRequest d p) s fun _ t => Inv d t := by
  simp only [endpointRequest, wp_bind, wp_get]
  refine wp_ite.2 ⟨fun _ => (wp_pure _ _ _).2 h, fun h0 => ?_⟩
  simp only [wp_bind]
  refine (usbFindEndpoint_spec h.range _).mono fun r t ht => ?_
  subst ht
  split
  · exact (wp_pure _ _ _).2 h
  · refine wp_ite.2 ⟨fun _ => (wp_pure _ _ _).2 h, fun _ => ?_⟩
    split
    · simp only [wp_ite, wp_pure]
      exact ⟨fun _ => h, fun _ => h⟩
    · simp only [wp_ite, wp_pure, wp_bind, wp_usbSetStall]
      exact ⟨fun _ => h, fun _ => h.stalled _⟩
    · simp only [wp_ite, wp_pure, wp_bind, wp_usbSetStall]
      exact ⟨fun _ => h, fun _ => h.stalled _⟩
    · exact (wp_pure _ _ _).2 h

theorem usbHandleEp0Setup_spec (h : Inv d s) (hok : SetupExisting d s p) :
    Wp (usbHandleEp0Setup d p) s fun _ t => Inv d t := by
  simp only [usbHandleEp0Setup, wp_bind]
  have hreq : Wp (request d p) s fun _ t => Inv d t := by
    unfold request
    split
    · rename_i hp
      exact deviceRequest_spec h hp hok
    · rename_i hp
      exact interfaceRequest_spec h hp hok
    · exact endpointRequest_spec h
    · exact (wp_pure _ _ _).2 h
  exact hreq.mono fun answer t ht => reply_spec ht answer

theorem handle_spec (h : Inv d s) (hok : NamesExisting d s e) :
    Wp (handle d e) s fun _ t => Inv d t ∧
      (e = .busReset ∨ e = .exit → t.currentConfiguration = 0) := by
  cases e with
  | setup p =>
    simp only [handle, wp_bind, wp_pure]
    exact (usbHandleEp0Setup_spec h hok).mono fun _ t ht => ⟨ht, by simp⟩
  | busReset =>
    simp only [handle, usbHandleBusReset, wp_bind, wp_pure, wp_modify]
    refine (usbUnconfigure_spec (s := { s with currentAddress := 0 })
      (h.congr rfl rfl rfl)).mono ?_
    rintro _ t ⟨ht, heq⟩
    refine ⟨ht, fun _ => ?_⟩
    rw [heq]
  | exit =>
    simp only [handle, usbExit, wp_bind, wp_pure]
    refine (usbUnconfigure_spec h).mono ?_
    rintro _ t ⟨ht, heq⟩
    refine ⟨ht, fun _ => ?_⟩
    rw [heq]

/-- A packet that asks for what is right after the end of an array has it read. -/
theorem handle_names {Q : Option Reply → State → Prop} (h : Wp (handle d e) s Q) :
    NamesExisting d s e := by
  cases e with
  | busReset => trivial
  | exit => trivial
  | setup p =>
    simp only [handle, usbHandleEp0Setup, wp_bind] at h
    refine ⟨fun hp hstd hreq hl h3 he => ?_, fun hp hstd hreq hl c f hc hf he => ?_⟩
    · simp only [request, hp, deviceRequest, wp_bind, wp_get, hstd, not_true_eq_false, ↓reduceIte,
        hreq, getDescriptor, hl, descriptor, h3, he, Nat.lt_irrefl, wp_index] at h
      obtain ⟨x, hx, -⟩ := h
      simp at hx
    · have h0 : s.currentConfiguration ≠ 0 := by
        intro h0
        simp [State.active, h0] at hc
      have hi := (List.getElem?_eq_some_iff.1 hf).1
      rw [State.active_of_pos h0] at hc
      simp only [request, hp, interfaceRequest, wp_bind, wp_get, h0, ↓reduceIte, wp_index, hc,
        Option.some.injEq, exists_eq_left', Nat.not_le.2 hi, hf, hstd, not_true_eq_false, hreq,
        wp_setInterface, hl, he, ne_eq, Nat.lt_irrefl, or_self] at h
      obtain ⟨a, b, -, hb, -⟩ := h
      simp at hb

/-! ## Whole runs -/

theorem step_eq_some {o : Option Reply} (h : step d s e = some (t, o))
    (Q : Option Reply → State → Prop) : Wp (handle d e) s Q ↔ Q o t := by
  unfold step at h
  cases hr : (handle d e).run s with
  | error f => rw [hr] at h; cases h
  | ok q =>
    rw [hr] at h
    cases h
    exact wp_of_run hr

theorem exists_step_iff :
    (∃ t o, step d s e = some (t, o)) ↔ Wp (handle d e) s fun _ _ => True := by
  constructor
  · rintro ⟨t, o, h⟩
    exact (step_eq_some h _).2 trivial
  · rintro ⟨o, t, hr, -⟩
    exact ⟨t, o, by unfold step; rw [hr]⟩

theorem step_iff (h : Inv d s) : (∃ t o, step d s e = some (t, o)) ↔ NamesExisting d s e := by
  rw [exists_step_iff]
  exact ⟨handle_names, fun hok => (handle_spec h hok).mono fun _ _ _ => trivial⟩

theorem step_inv {o : Option Reply} (h : Inv d s) (hs : step d s e = some (t, o)) :
    Inv d t ∧ (e = .busReset ∨ e = .exit → t.currentConfiguration = 0) :=
  (step_eq_some hs _).1 (handle_spec h ((step_iff h).1 ⟨t, o, hs⟩))

theorem usbInit_inv (altsetting : Nat → Nat) (stall : UInt8 → Bool) :
    Inv d (usbInit altsetting stall) :=
  .of_none rfl .nil (by simp [usbInit])

theorem runs_inv {ok : State → Event → Prop} {es : List (State × Event × Option Reply)}
    (h : Inv d s) (hr : Lts.Runs (step d) ok s es t) :
    Inv d t ∧ ∀ x, es.getLast? = some x → x.2.1 = .busReset ∨ x.2.1 = .exit →
      t.currentConfiguration = 0 := by
  refine hr.invariant_trace (I := fun es t => Inv d t ∧ ∀ x, es.getLast? = some x →
    x.2.1 = .busReset ∨ x.2.1 = .exit → t.currentConfiguration = 0) ⟨h, by simp⟩ ?_
  intro l x b y q hx _ hs
  obtain ⟨hy, hlast⟩ := step_inv hx.1 hs
  refine ⟨hy, fun z hz => ?_⟩
  rw [List.getLast?_append, List.getLast?_singleton, Option.some_or] at hz
  cases hz
  exact hlast

/-- The events are handled without an access past the end of an array, and in every state on the
way the configuration and the altsettings at work exist. -/
def StaysInRange (d : Instance) (s : State) (events : List Event) : Prop :=
  ∃ es t, es.map (fun x => x.2.1) = events ∧ Lts.Runs (step d) (fun _ _ => True) s es t ∧
    (∀ x ∈ es, InRange d x.1) ∧ InRange d t

theorem indices_in_range_iff (d : Instance) (altsetting : Nat → Nat) (stall : UInt8 → Bool)
    (events : List Event) :
    StaysInRange d (usbInit altsetting stall) events ↔
      Lts.Meets (step d) (NamesExisting d) (usbInit altsetting stall) events := by
  have hinit := usbInit_inv (d := d) altsetting stall
  rw [← Lts.exec_isSome_iff (I := Inv d) (fun x b hx => step_iff hx)
    (fun x b y q hx hs => (step_inv hx hs).1) hinit]
  constructor
  · rintro ⟨es, t, rfl, hr, -, -⟩
    exact ⟨t, Lts.exec_of_runs hr⟩
  · rintro ⟨t, ht⟩
    obtain ⟨es, hes, hr⟩ := Lts.exec_runs ht
    refine ⟨es, t, hes, hr, fun x hx => ?_, (runs_inv hinit hr).1.range⟩
    obtain ⟨pre, post, rfl⟩ := List.append_of_mem hx
    exact (runs_inv hinit (hr.split rfl).1).1.range

/-- `GET_DESCRIPTOR` of string 3, of which the monitor's device has three. -/
theorem string_not_staysInRange :
    ¬ StaysInRange usbDefaultData (usbInit (fun _ => 0) fun _ => false)
      [.setup ⟨0x80, 6, 0x0303, 0x0409, 255⟩] := by
  rintro ⟨es, t, hes, hr, -⟩
  have ht := Lts.exec_of_runs hr
  rw [hes] at ht
  have hnone : (Lts.exec (step usbDefaultData) (usbInit (fun _ => 0) fun _ => false)
      [.setup ⟨0x80, 6, 0x0303, 0x0409, 255⟩]).isSome = false := by decide
  rw [ht] at hnone
  cases hnone

/-- The host configures the monitor's device and asks for its altsetting 1, which it does not
have. -/
example : (Lts.exec (step usbDefaultData) (usbInit (fun _ => 0) fun _ => false)
    [.setup ⟨0x00, 5, 7, 0, 0⟩, .setup ⟨0x00, 9, 1, 0, 0⟩,
      .setup ⟨0x01, 11, 1, 0, 0⟩]).isSome = false := by decide

/-! ## The order of the callbacks -/

/-- The callbacks alternate, those of the configurations and those of each interface. -/
structure Alternating (log : List Callback) : Prop where
  configuration : ∃ o, Alternates (log.filterMap Callback.configuration) o
  interface : ∀ c i, ∃ o, Alternates (log.filterMap (Callback.ofInterface c i)) o

/-- Everything that was set was unset. -/
structure AllUnset (log : List Callback) : Prop where
  configuration : Alternates (log.filterMap Callback.configuration) none
  interface : ∀ c i, Alternates (log.filterMap (Callback.ofInterface c i)) none

/-- Callbacks to set and to unset come in pairs. -/
structure Paired (d : Instance) : Prop where
  configuration : ∀ c ∈ d.configurations, c.setConfiguration = c.unsetConfiguration
  altsetting : ∀ c ∈ d.configurations, ∀ f ∈ c.interfaces, ∀ a ∈ f.altsettings,
    a.setAltsetting = a.unsetAltsetting

theorem filterMap_filter_marks {β : Type} {l : List Callback} {g : Callback → Option (Mark β)}
    {q : Callback → Bool} {v : β → Bool} (h : ∀ x m, g x = some m → q x = v m.val) :
    (l.filter q).filterMap g = (l.filterMap g).filter fun m => v m.val := by
  induction l with
  | nil => rfl
  | cons x l ih =>
    cases hg : g x with
    | none =>
      cases hq : q x with
      | true => simp [hq, hg, ih]
      | false => simp [hq, hg, ih]
    | some m =>
      have hv := h x m hg
      cases hq : q x with
      | true => simp [hq, hg, ih, ← hv]
      | false => simp [hq, hg, ih, ← hv]

namespace Paired

variable (hd : Paired d) {log : List Callback}

include hd

theorem filter_configuration :
    (log.filter d.provides).filterMap Callback.configuration =
      (log.filterMap Callback.configuration).filter fun m =>
        d.provides (.setConfiguration m.val) := by
  refine filterMap_filter_marks (v := fun c => d.provides (.setConfiguration c))
    fun x m hx => ?_
  cases x with
  | setConfiguration c => cases hx; rfl
  | unsetConfiguration c =>
    cases hx
    show (d.configurations[c - 1]?).any _ = (d.configurations[c - 1]?).any _
    cases hc : d.configurations[c - 1]? with
    | none => rfl
    | some y => exact (hd.configuration y (List.mem_of_getElem? hc)).symm
  | setAltsetting c i a => cases hx
  | unsetAltsetting c i a => cases hx

theorem filter_interface (c i : Nat) :
    (log.filter d.provides).filterMap (Callback.ofInterface c i) =
      (log.filterMap (Callback.ofInterface c i)).filter fun m =>
        d.provides (.setAltsetting c i m.val) := by
  refine filterMap_filter_marks (v := fun a => d.provides (.setAltsetting c i a))
    fun x m hx => ?_
  cases x with
  | setConfiguration c => cases hx
  | unsetConfiguration c => cases hx
  | setAltsetting c' i' a =>
    simp only [Callback.ofInterface, Option.ite_none_right_eq_some, Option.some.injEq] at hx
    obtain ⟨⟨rfl, rfl⟩, rfl⟩ := hx
    rfl
  | unsetAltsetting c' i' a =>
    simp only [Callback.ofInterface, Option.ite_none_right_eq_some, Option.some.injEq] at hx
    obtain ⟨⟨rfl, rfl⟩, rfl⟩ := hx
    show (d.altsetting c' i' a).any _ = (d.altsetting c' i' a).any _
    cases ha : d.altsetting c' i' a with
    | none => rfl
    | some y =>
      simp only [Instance.altsetting, Option.bind_eq_some_iff] at ha
      obtain ⟨z, hz, f, hf, hy⟩ := ha
      exact (hd.altsetting z (List.mem_of_getElem? hz) f (List.mem_of_getElem? hf) y
        (List.mem_of_getElem? hy)).symm

/-- Leaving out the null pointers leaves the order. -/
theorem alternating (h : Alternating log) : Alternating (log.filter d.provides) := by
  refine ⟨?_, fun c i => ?_⟩
  · obtain ⟨o, ho⟩ := h.configuration
    rw [hd.filter_configuration]
    exact ⟨_, ho.filter fun c => d.provides (.setConfiguration c)⟩
  · obtain ⟨o, ho⟩ := h.interface c i
    rw [hd.filter_interface]
    exact ⟨_, ho.filter fun a => d.provides (.setAltsetting c i a)⟩

theorem allUnset (h : AllUnset log) : AllUnset (log.filter d.provides) := by
  refine ⟨?_, fun c i => ?_⟩
  · rw [hd.filter_configuration]
    exact h.configuration.filter fun c => d.provides (.setConfiguration c)
  · rw [hd.filter_interface]
    exact (h.interface c i).filter fun a => d.provides (.setAltsetting c i a)

end Paired

theorem Inv.calls (h : Inv d s) : s.calls = s.notices.filter d.provides := by
  have hcalled := h.called
  unfold State.calls State.notices
  rw [List.filter_map]
  congr 1
  exact List.filter_congr fun n hn => hcalled n hn

theorem Inv.allUnset (h : Inv d s) (h0 : s.currentConfiguration = 0) : AllUnset s.notices := by
  have ht := h.tracks
  rw [show s.conf = none from if_pos h0] at ht
  exact ⟨ht.configuration, fun c i => ht.interface c i⟩

/-- A null pointer counts as a callback that does nothing; where they come in pairs, they can be
left out. -/
theorem callbacks_alternate {altsetting : Nat → Nat} {stall : UInt8 → Bool} {events : List Event}
    (h : Lts.Meets (step d) (NamesExisting d) (usbInit altsetting stall) events) :
    ∃ t, Lts.exec (step d) (usbInit altsetting stall) events = some t ∧
      t.calls = t.notices.filter d.provides ∧
      Alternating t.notices ∧ Within t.notices ∧ (Paired d → Alternating t.calls) ∧
      ∀ e, events.getLast? = some e → e = .busReset ∨ e = .exit →
        AllUnset t.notices ∧ (Paired d → AllUnset t.calls) := by
  have hinit := usbInit_inv (d := d) altsetting stall
  obtain ⟨t, ht⟩ := (Lts.exec_isSome_iff (I := Inv d) (fun x b hx => step_iff hx)
    (fun x b y q hx hs => (step_inv hx hs).1) hinit).2 h
  obtain ⟨es, rfl, hr⟩ := Lts.exec_runs ht
  obtain ⟨hinv, hlast⟩ := runs_inv hinit hr
  have halt : Alternating t.notices :=
    ⟨⟨_, hinv.tracks.configuration⟩, fun c i => ⟨_, hinv.tracks.interface c i⟩⟩
  refine ⟨t, ht, hinv.calls, halt, hinv.tracks.within, fun hd => ?_, fun e he hreset => ?_⟩
  · rw [hinv.calls]
    exact hd.alternating halt
  · rw [List.getLast?_map, Option.map_eq_some_iff] at he
    obtain ⟨x, hx, rfl⟩ := he
    have hunset := hinv.allUnset (hlast x hx hreset)
    refine ⟨hunset, fun hd => ?_⟩
    rw [hinv.calls]
    exact hd.allUnset hunset

/-- The host configures the monitor's device, sets its altsetting and resets the bus. -/
theorem callbacks_alternate_reset :
    ∃ t, Lts.exec (step usbDefaultData) (usbInit (fun _ => 0) fun _ => false)
        [.setup ⟨0x00, 5, 7, 0, 0⟩, .setup ⟨0x00, 9, 1, 0, 0⟩, .busReset] = some t ∧
      t.calls = t.notices.filter usbDefaultData.provides ∧
      Alternating t.notices ∧ Within t.notices ∧ (Paired usbDefaultData → Alternating t.calls) ∧
      ∀ e, [Event.setup ⟨0x00, 5, 7, 0, 0⟩, .setup ⟨0x00, 9, 1, 0, 0⟩, .busReset].getLast? =
          some e → e = .busReset ∨ e = .exit →
        AllUnset t.notices ∧ (Paired usbDefaultData → AllUnset t.calls) := by
  refine callbacks_alternate (d := usbDefaultData) ?_
  have hdevice : ∀ s req wValue wIndex wLength, req ≠ 6 →
      NamesExisting usbDefaultData s (.setup ⟨0x00, req, wValue, wIndex, wLength⟩) := by
    intro s req wValue wIndex wLength hne
    refine ⟨fun _ _ hreq => ?_, fun hrec => by cases hrec⟩
    simp only [Setup.req] at hreq
    split at hreq <;> try cases hreq
    rename_i h6
    exact absurd (UInt8.toNat_inj.1 h6) hne
  exact ⟨hdevice _ _ _ _ _ (by decide), fun t o _ => ⟨hdevice _ _ _ _ _ (by decide),
    fun u o' _ => ⟨trivial, fun _ _ _ => trivial⟩⟩⟩

/-! ## Stalled requests -/

/-- Nothing of the device's state changed; EP0's own stall is the answer. -/
structure Unchanged (s t : State) : Prop where
  address : t.currentAddress = s.currentAddress
  configuration : t.currentConfiguration = s.currentConfiguration
  altsetting : t.interfaceAltsetting = s.interfaceAltsetting
  stall : ∀ ep, ep ≠ ep0out → ep ≠ ep0in → t.stall ep = s.stall ep
  calls : t.calls = s.calls

/-- A stalled request changed nothing, and one that changed something was acknowledged. -/
def Faithful (s t : State) (r : Reply) : Prop :=
  (r = .stall → Unchanged s t) ∧ (¬ Unchanged s t → r = .ack)

/-- The packet is a SET_INTERFACE that takes an existing interface from its altsetting `a` to its
altsetting `b`. -/
structure Accepted (d : Instance) (s : State) (p : Setup) (a b : Altsetting) : Prop where
  recipient : p.recipient = .interface
  standard : p.Standard
  req : p.req = .setInterface
  wLength : p.wLength = 0
  altsettings : ∃ c f, s.active d = some c ∧ c.interfaces[p.wIndex.toNat]? = some f ∧
    f.altsettings[s.interfaceAltsetting p.wIndex.toNat]? = some a ∧
    f.altsettings[p.wValue.toNat]? = some b

/-- Such a packet names another altsetting than the one at work, or there is a callback to call. -/
def ActsSilently (d : Instance) (s : State) (p : Setup) : Prop :=
  ∃ a b, Accepted d s p a b ∧ (p.wValue.toNat ≠ s.interfaceAltsetting p.wIndex.toNat ∨
    a.unsetAltsetting = true ∨ b.setAltsetting = true)

theorem Unchanged.refl (s : State) : Unchanged s s := ⟨rfl, rfl, rfl, fun _ _ _ => rfl, rfl⟩

theorem reads_getDescriptor : Reads (getDescriptor d p) := by
  unfold getDescriptor
  split
  · exact .pure _
  · refine Reads.bind ?_ fun _ => .pure _
    unfold descriptor
    dsimp only
    split
    · split <;> exact .pure _
    · split
      · exact .pure _
      · exact (reads_index _ _).bind fun _ => .pure _
    · split
      · exact .pure _
      · exact (reads_index _ _).bind fun _ => .pure _
    · exact .pure _

/-- An answer other than a status stage comes without a change. -/
theorem deviceRequest_same {Q : Answer → State → Prop} (h : Wp (deviceRequest d p) s Q) :
    ∃ a t, Q a t ∧ (a.size ≠ 0 → t = s) := by
  simp only [deviceRequest, wp_bind, wp_get] at h
  by_cases hstd : p.Standard
  · simp only [hstd, not_true_eq_false, ↓reduceIte] at h
    split at h
    · split at h <;> exact ⟨_, _, (wp_pure _ _ _).1 h, fun _ => rfl⟩
    · split at h
      · exact ⟨_, _, (wp_pure _ _ _).1 h, fun _ => rfl⟩
      · simp only [wp_bind, wp_set, wp_pure] at h
        exact ⟨_, _, h, fun hne => absurd rfl hne⟩
    · obtain ⟨a, ha⟩ := reads_getDescriptor s Q h
      exact ⟨a, s, ha, fun _ => rfl⟩
    · split at h <;> exact ⟨_, _, (wp_pure _ _ _).1 h, fun _ => rfl⟩
    · split at h
      · exact ⟨_, _, (wp_pure _ _ _).1 h, fun _ => rfl⟩
      · obtain ⟨t, ht⟩ := setConfiguration_ack h
        exact ⟨.ack, t, ht, fun hne => absurd rfl hne⟩
    · exact ⟨_, _, (wp_pure _ _ _).1 h, fun _ => rfl⟩
  · simp only [hstd, not_false_eq_true, ↓reduceIte, wp_pure] at h
    exact ⟨_, _, h, fun _ => rfl⟩

theorem interfaceRequest_same {Q : Answer → State → Prop} (hp : p.recipient = .interface)
    (hno : ∀ a b, ¬ Accepted d s p a b) (h : Wp (interfaceRequest d p) s Q) : ∃ a, Q a s := by
  simp only [interfaceRequest, wp_bind, wp_get] at h
  by_cases h0 : s.currentConfiguration = 0
  · simp only [h0, ↓reduceIte, wp_pure] at h
    exact ⟨_, h⟩
  · simp only [h0, ↓reduceIte, wp_bind, wp_index] at h
    obtain ⟨c, hc, h⟩ := h
    split at h
    · exact ⟨_, (wp_pure _ _ _).1 h⟩
    · simp only [wp_bind, wp_index] at h
      obtain ⟨f, hf, h⟩ := h
      by_cases hstd : p.Standard
      · simp only [hstd, not_true_eq_false, ↓reduceIte] at h
        split at h
        · split at h <;> exact ⟨_, (wp_pure _ _ _).1 h⟩
        · split at h <;> exact ⟨_, (wp_pure _ _ _).1 h⟩
        · rename_i hreq
          rw [wp_setInterface] at h
          split at h
          · exact ⟨_, h⟩
          · rename_i hacc
            obtain ⟨a, b, ha, hb, -⟩ := h
            refine absurd ⟨hp, hstd, hreq, ?_, c, f, ?_, hf, ha, hb⟩ (hno a b)
            · by_contra hl
              exact hacc (.inl hl)
            · rw [State.active_of_pos h0]
              exact hc
        · exact ⟨_, (wp_pure _ _ _).1 h⟩
      · simp only [hstd, not_false_eq_true, ↓reduceIte, wp_pure] at h
        exact ⟨_, h⟩

theorem endpointRequest_same {Q : Answer → State → Prop} (h : Wp (endpointRequest d p) s Q) :
    ∃ a t, Q a t ∧ (a.size ≠ 0 → t = s) := by
  simp only [endpointRequest, wp_bind, wp_get] at h
  by_cases h0 : s.currentConfiguration = 0
  · simp only [h0, ↓reduceIte, wp_pure] at h
    exact ⟨_, _, h, fun _ => rfl⟩
  · simp only [h0, ↓reduceIte, wp_bind] at h
    obtain ⟨r, h⟩ := reads_usbFindEndpoint _ s _ h
    cases r with
    | none => exact ⟨_, _, (wp_pure _ _ _).1 h, fun _ => rfl⟩
    | some x =>
      by_cases hstd : p.Standard
      · simp only [hstd, not_true_eq_false, ↓reduceIte] at h
        split at h
        · split at h <;> exact ⟨_, _, (wp_pure _ _ _).1 h, fun _ => rfl⟩
        · split at h
          · exact ⟨_, _, (wp_pure _ _ _).1 h, fun _ => rfl⟩
          · simp only [wp_bind, wp_usbSetStall, wp_pure] at h
            exact ⟨.ack, _, h, fun hne => absurd rfl hne⟩
        · split at h
          · exact ⟨_, _, (wp_pure _ _ _).1 h, fun _ => rfl⟩
          · simp only [wp_bind, wp_usbSetStall, wp_pure] at h
            exact ⟨.ack, _, h, fun hne => absurd rfl hne⟩
        · exact ⟨_, _, (wp_pure _ _ _).1 h, fun _ => rfl⟩
      · simp only [hstd, not_false_eq_true, ↓reduceIte, wp_pure] at h
        exact ⟨_, _, h, fun _ => rfl⟩

theorem request_same {Q : Answer → State → Prop} (hno : ∀ a b, ¬ Accepted d s p a b)
    (h : Wp (request d p) s Q) : ∃ a t, Q a t ∧ (a.size ≠ 0 → t = s) := by
  unfold request at h
  split at h
  · exact deviceRequest_same h
  · rename_i hp
    obtain ⟨a, ha⟩ := interfaceRequest_same hp hno h
    exact ⟨a, s, ha, fun _ => rfl⟩
  · exact endpointRequest_same h
  · exact ⟨_, _, (wp_pure _ _ _).1 h, fun _ => rfl⟩

theorem request_accepted {a b : Altsetting} (hacc : Accepted d s p a b)
    {Q : Answer → State → Prop} :
    Wp (request d p) s Q ↔
      Q .unhandled (s.switched s.currentConfiguration p.wIndex.toNat p.wValue.toNat a b) := by
  obtain ⟨c, f, hc, hf, ha, hb⟩ := hacc.altsettings
  have h0 : s.currentConfiguration ≠ 0 := by
    intro h0
    simp [State.active, h0] at hc
  rw [State.active_of_pos h0] at hc
  have hi := (List.getElem?_eq_some_iff.1 hf).1
  have hv := (List.getElem?_eq_some_iff.1 hb).1
  simp only [request, hacc.recipient, interfaceRequest, wp_bind, wp_get, h0, ↓reduceIte, wp_index,
    hc, Option.some.injEq, exists_eq_left', Nat.not_le.2 hi, hf, hacc.standard, not_true_eq_false,
    hacc.req, wp_setInterface, hacc.wLength, ne_eq, Nat.not_lt.2 (Nat.le_of_lt hv), or_self, ha, hb]
  constructor
  · rintro ⟨_, _, rfl, rfl, hq⟩
    exact hq
  · intro hq
    exact ⟨a, b, rfl, rfl, hq⟩

/-- The callbacks that SET_INTERFACE calls. -/
theorem State.switched_calls (configid intfid wValue : Nat) (a b : Altsetting) :
    (s.switched configid intfid wValue a b).calls = s.calls ↔
      a.unsetAltsetting = false ∧ b.setAltsetting = false := by
  unfold State.calls State.switched
  cases ha : a.unsetAltsetting <;> cases hb : b.setAltsetting <;> simp

/-- What EP0's answer does to a state. -/
theorem reply_cases {answer : Answer} {Q : Reply → State → Prop} (h : Wp (reply answer) s Q) :
    (answer.size = 0 ∧ ∃ t, Q .ack t) ∨ (0 < answer.size ∧ ∃ addr n, Q (.data addr n) s) ∨
      (answer.size < 0 ∧ ∃ stall, Q .stall { s with stall := stall } ∧
        ∀ ep, ep ≠ ep0out → ep ≠ ep0in → stall ep = s.stall ep) := by
  unfold reply at h
  split at h
  · rename_i h0
    simp only [wp_bind, wp_usbSetStall, wp_pure] at h
    exact .inl ⟨h0, _, h⟩
  · split at h
    · rename_i hpos
      exact .inr (.inl ⟨hpos, _, _, (wp_pure _ _ _).1 h⟩)
    · simp only [wp_bind, wp_usbSetStall, wp_pure] at h
      refine .inr (.inr ⟨by omega, _, h, fun ep hout hin => ?_⟩)
      rw [Function.update_of_ne, Function.update_of_ne]
      · exact hin
      · exact hout

theorem stalled_unchanged_iff (h : (usbHandleEp0Setup d p).run s = .ok (r, t)) :
    Faithful s t r ↔ ¬ ActsSilently d s p := by
  have hrun : Wp (usbHandleEp0Setup d p) s fun r' t' => r' = r ∧ t' = t :=
    (wp_of_run h).2 ⟨rfl, rfl⟩
  simp only [usbHandleEp0Setup, wp_bind] at hrun
  by_cases hacc : ∃ a b, Accepted d s p a b
  · -- the answer is a stall, whatever was done
    obtain ⟨a, b, hacc⟩ := hacc
    rw [request_accepted hacc] at hrun
    obtain ⟨h0, -⟩ | ⟨hpos, -⟩ | ⟨-, stall, ⟨rfl, rfl⟩, hep⟩ := reply_cases hrun
    · cases h0
    · exact absurd hpos (by decide)
    · obtain ⟨c, f, hc, hf, ha, hb⟩ := hacc.altsettings
      have hcalls := State.switched_calls (s := s) s.currentConfiguration p.wIndex.toNat
        p.wValue.toNat a b
      constructor
      · rintro ⟨hfaith, -⟩ ⟨a', b', hacc', hacts⟩
        obtain ⟨c', f', hc', hf', ha', hb'⟩ := hacc'.altsettings
        rw [hc] at hc'
        cases hc'
        rw [hf] at hf'
        cases hf'
        rw [ha] at ha'
        cases ha'
        rw [hb] at hb'
        cases hb'
        have hun := hfaith rfl
        obtain ⟨hua, hsb⟩ := hcalls.1 hun.calls
        rcases hacts with hne | hua' | hsb'
        · have halt := congrFun hun.altsetting p.wIndex.toNat
          simp only [State.switched, Function.update_self] at halt
          exact hne halt
        · rw [hua] at hua'
          cases hua'
        · rw [hsb] at hsb'
          cases hsb'
      · intro hno
        have hun : Unchanged s { s.switched s.currentConfiguration p.wIndex.toNat p.wValue.toNat
            a b with stall := stall } := by
          refine ⟨rfl, rfl, ?_, hep, hcalls.2 ⟨?_, ?_⟩⟩
          · have hv : p.wValue.toNat = s.interfaceAltsetting p.wIndex.toNat := by
              by_contra hv
              exact hno ⟨a, b, hacc, .inl hv⟩
            simp only [State.switched, hv, Function.update_eq_self]
          · rw [← Bool.not_eq_true]
            exact fun hu => hno ⟨a, b, hacc, .inr (.inl hu)⟩
          · rw [← Bool.not_eq_true]
            exact fun hs => hno ⟨a, b, hacc, .inr (.inr hs)⟩
        exact ⟨fun _ => hun, fun hc => absurd hun hc⟩
  · -- no other request is both acted on and not acknowledged
    have hno : ∀ a b, ¬ Accepted d s p a b := fun a b hab => hacc ⟨a, b, hab⟩
    obtain ⟨answer, u, hreply, hsame⟩ := request_same hno hrun
    refine ⟨?_, fun _ => ?_⟩
    · rintro _ ⟨a, b, hab, -⟩
      exact hno a b hab
    obtain ⟨h0, u', rfl, -⟩ | ⟨hpos, addr, n, rfl, rfl⟩ | ⟨hneg, stall, ⟨rfl, rfl⟩, hep⟩ :=
      reply_cases hreply
    · exact ⟨(fun hc => by cases hc), fun _ => rfl⟩
    · rw [hsame (by omega)]
      exact ⟨fun _ => .refl s, fun hc => absurd (.refl s) hc⟩
    · have hu := hsame (by omega)
      subst hu
      have hun : Unchanged u { u with stall := stall } := ⟨rfl, rfl, rfl, hep, rfl⟩
      exact ⟨fun _ => hun, fun hc => absurd hun hc⟩

/-- The monitor's device once it is configured. -/
def configured : State := ⟨7, 1, fun _ => 0, fun _ => false, []⟩

/-- SET_INTERFACE calls both callbacks of the monitor's device and is stalled. -/
theorem setInterface_not_faithful :
    ∃ t, (usbHandleEp0Setup usbDefaultData ⟨0x01, 11, 0, 0, 0⟩).run configured = .ok (.stall, t) ∧
      ¬ Faithful configured t .stall := by
  refine ⟨_, rfl, fun hf => ?_⟩
  have hcalls := (hf.1 rfl).calls
  revert hcalls
  decide

theorem stalled_unchanged_iff_getStatus :
    ∃ t, (usbHandleEp0Setup usbDefaultData ⟨0x80, 0, 0, 0, 2⟩).run configured =
        .ok (.data (.buffer [0, 1]) 2, t) ∧
      (Faithful configured t (.data (.buffer [0, 1]) 2) ↔
        ¬ ActsSilently usbDefaultData configured ⟨0x80, 0, 0, 0, 2⟩) :=
  ⟨_, rfl, stalled_unchanged_iff (d := usbDefaultData) rfl⟩

end Usb
end Freemyipod
