import GpsBase.Control.Modes
import GpsBase.Lib.Machine
import GpsBase.Rtcm.Framing
import GpsBase.Settings.Saves

/-! # The stored intent and the collection

`request_raw_collection` writes the flag and then queues an action, without waiting for room. The web
server and the touch panel both call it; the base task takes the actions from the queue one by one, each
carried out in the step that takes it. The flag and the actions agree as long as no two calls with
different values have written and not yet queued, and what a call writes is also queued
(`intent_agrees`). Neither is guaranteed (`intent_lost`). -/

namespace GpsBase.Control.RinexIntent

open GpsBase.Lib.Machine GpsBase.Control.Modes GpsBase.Mailbox.Slots GpsBase.Rtcm.Framing
open GpsBase.Rtcm.Parser GpsBase.Settings.Records GpsBase.Settings.Saves

/-! ### The callers and the queue -/

/-- The tasks that call `request_raw_collection`. -/
inductive Caller
  | web
  | touch
  deriving DecidableEq

/-- A call of `request_raw_collection`, and what the flag was before its write and behind it. -/
structure Request where
  enable : Bool
  written : Option (Bool × Bool)

/-- The flag, the queue, the base, and the calls; `refused` is the record of the calls that returned an
error: the flag before their write and behind it. -/
structure World (D : Type) where
  storage : Storage
  station : Station D
  queue : List (Action D)
  requests : Caller → Option Request
  refused : List (Bool × Bool) := []

inductive Event (D : Type)
  | request (t : Caller) (enable : Bool)
  | write (t : Caller)
  | send (t : Caller)
  | requestUm980Reset
  | drain (exit a : Answers D)

def kActions : ℕ := 4

namespace World

variable {D : Type}

/-- `rinex_collection_enabled`. -/
def flag (w : World D) : Bool := w.storage.rinexCollectionEnabled false

def request (w : World D) (t : Caller) (enable : Bool) : Option (World D) :=
  if (w.requests t).isSome then none
  else some { w with requests := Function.update w.requests t (some ⟨enable, none⟩) }

/-- The flag is written, whatever the result; nothing follows a loss of power. -/
def write (w : World D) (t : Caller) : Option (World D) :=
  match w.requests t with
  | some ⟨enable, none⟩ =>
    let r := w.storage.setRinexCollectionEnabled enable
    r.2.map fun _ =>
      { w with
        storage := r.1
        requests := Function.update w.requests t
          (some ⟨enable, some (w.flag, r.1.rinexCollectionEnabled false)⟩) }
  | _ => none

/-- The action is queued if there is room, and the call returns. -/
def send (w : World D) (t : Caller) : Option (World D) :=
  match w.requests t with
  | some ⟨enable, some (before, after)⟩ =>
    let w := { w with requests := Function.update w.requests t none }
    if w.queue.length < kActions then
      some { w with queue := w.queue ++ [if enable then .kStartRaw else .kStopRaw] }
    else some { w with refused := w.refused ++ [(before, after)] }
  | _ => none

def requestUm980Reset (w : World D) : World D :=
  if w.queue.length < kActions then { w with queue := w.queue ++ [.kResetUm980] } else w

/-- The base takes an action and carries it out. -/
def drain (w : World D) (exit a : Answers D) : Option (World D) :=
  match w.queue with
  | [] => none
  | action :: queue =>
    some { w with station := w.station.handleAction action exit a, queue := queue }

def step (w : World D) : Event D → Option (World D)
  | .request t enable => w.request t enable
  | .write t => w.write t
  | .send t => w.send t
  | .requestUm980Reset => some w.requestUm980Reset
  | .drain exit a => w.drain exit a

end World

variable {D : Type}

/-! ### Intent -/

/-- What an action makes of `raw_collection_` in base transmission mode. -/
def effect (raw : Bool) : Action D → Bool
  | .kStartRaw => true
  | .kStopRaw => false
  | _ => raw

/-- What the queued actions will make of it. -/
def replay (raw : Bool) (queue : List (Action D)) : Bool := queue.foldl effect raw

/-- An action that is neither a survey nor a position. -/
def Plain : Action D → Prop
  | .kSurvey => False
  | .kPosition _ _ _ => False
  | _ => True

/-- **Intent and reality agree**: at rest `raw_collection_` is the stored flag, and no call that returned
an error has changed the flag. -/
structure Agrees (w : World D) : Prop where
  rest : w.queue = [] → (∀ t, w.requests t = none) → w.station.rawCollection = w.flag
  refused : ∀ e ∈ w.refused, e.1 = e.2

/-- A base in transmission mode, whose queue will bring it to the flag, and no call. -/
structure Settled (w : World D) : Prop where
  mode : w.station.mode = .kTransmit
  plain : ∀ a ∈ w.queue, Plain a
  intent : replay w.station.rawCollection w.queue = w.flag
  idle : ∀ t, w.requests t = none
  refused : w.refused = []

/-- **The condition on a step.** A flag is written only if the storage takes it or holds it already, and
no call with the other value is between its write and its queueing; and a call that has changed the flag
finds room in the queue. -/
def Orderly (w : World D) : Event D → Prop
  | .write t => ∀ enable, w.requests t = some ⟨enable, none⟩ →
    ((w.storage.setBool "rinex_on" enable).2 = some ESP_OK ∨ w.flag = enable) ∧
      ∀ u r, w.requests u = some r → r.written.isSome = true → r.enable = enable
  | .send t => ∀ enable before after, w.requests t = some ⟨enable, some (before, after)⟩ →
    w.queue.length < kActions ∨ before = enable
  | _ => True

/-! ### What a step does -/

/-- A flag that the storage takes is read back, and one it does not take leaves what was there. -/
theorem flag_write (s : Storage) (enable : Bool) :
    ((s.setRinexCollectionEnabled enable).1.rinexCollectionEnabled false = enable) ∨
      ((s.setBool "rinex_on" enable).2 ≠ some ESP_OK ∧
        (s.setRinexCollectionEnabled enable).1.rinexCollectionEnabled false =
          s.rinexCollectionEnabled false) := by
  have hkeys : s.setRinexCollectionEnabled enable =
      saveKeys s [("rinex_on", .u8 (if enable then 1 else 0))] := rfl
  rcases hopen : s.isOpen
  · refine Or.inr ⟨?_, ?_⟩
    · unfold Storage.setBool Storage.set
      rw [hopen]
      exact fun h => absurd (Option.some.inj h) (by decide)
    · rw [hkeys, leaves_closed hopen]
  · obtain ⟨hleaves, -⟩ := saveKeys_spec [("rinex_on", .u8 (if enable then 1 else 0))] hopen
    rw [← hkeys] at hleaves
    by_cases hanswer : s.nvs.answers 0 = .returns ESP_OK
    · -- the value is visible, whatever the commit answers
      refine Or.inl ?_
      have hvisible := hleaves.visible
      rw [List.length_singleton, okCalls, if_pos hanswer, okCalls] at hvisible
      unfold Storage.rinexCollectionEnabled Storage.getBool
      rw [hleaves.isOpen, hopen, hvisible]
      rcases enable <;> rfl
    · refine Or.inr ⟨?_, ?_⟩
      · unfold Storage.setBool
        rw [(set_stop hopen hanswer "rinex_on" _ []).2]
        exact fun h => hanswer (result_eq_ok.mp h)
      · have hvisible := hleaves.visible
        rw [List.length_singleton, okCalls, if_neg hanswer] at hvisible
        exact (load_of_visible hleaves.isOpen hvisible "rinex_on").2.2 false

theorem handleAction_spec {s : Station D} (hmode : s.mode = .kTransmit) {action : Action D}
    (hplain : Plain action) (exit a : Answers D) :
    (s.handleAction action exit a).mode = .kTransmit ∧
      (s.handleAction action exit a).rawCollection = effect s.rawCollection action := by
  cases action with
  | kSurvey => exact hplain.elim
  | kPosition lat lon height => exact hplain.elim
  | kStartRaw =>
    unfold Station.handleAction Station.enterRawCollection
    dsimp only
    rw [if_neg (not_not_intro hmode)]
    split_ifs with hraw
    · exact ⟨hmode, hraw⟩
    · exact ⟨hmode, rfl⟩
  | kStopRaw =>
    unfold Station.handleAction Station.exitRawCollection
    dsimp only
    split_ifs with hraw
    · exact ⟨hmode, rfl⟩
    · exact ⟨hmode, Bool.eq_false_iff.mpr hraw⟩
  | kResetUm980 =>
    unfold Station.handleAction Station.resetUm980
    dsimp only
    split_ifs
    · exact ⟨hmode, rfl⟩
    · exact ⟨hmode, rfl⟩

theorem replay_append (raw : Bool) (queue : List (Action D)) (action : Action D) :
    replay raw (queue ++ [action]) = effect (replay raw queue) action := by
  unfold replay
  rw [List.foldl_append]
  rfl

/-! ### The invariant -/

/-- What holds in a run whose steps are orderly. -/
structure Inv (w : World D) : Prop where
  mode : w.station.mode = .kTransmit
  plain : ∀ a ∈ w.queue, Plain a
  /-- The calls that have written all wrote the flag. -/
  written : ∀ t enable before after, w.requests t = some ⟨enable, some (before, after)⟩ →
    after = enable ∧ w.flag = enable
  /-- The queue leads to the flag, or a call that changed it is still to queue its action. -/
  intent : replay w.station.rawCollection w.queue = w.flag ∨
    ∃ t enable before after, w.requests t = some ⟨enable, some (before, after)⟩ ∧ before ≠ enable
  refused : ∀ e ∈ w.refused, e.1 = e.2

theorem Settled.inv {w : World D} (h : Settled w) : Inv w where
  mode := h.mode
  plain := h.plain
  written t enable before after ht := by
    rw [h.idle t] at ht
    cases ht
  intent := Or.inl h.intent
  refused e he := by
    rw [h.refused] at he
    cases he

theorem Inv.agrees {w : World D} (h : Inv w) : Agrees w where
  rest hqueue hidle := by
    rcases h.intent with hintent | ⟨t, enable, before, after, ht, -⟩
    · rw [hqueue] at hintent
      exact hintent
    · rw [hidle t] at ht
      cases ht
  refused := h.refused

/-- A call that has written, after the state of a call is changed. -/
theorem request_of_update {requests : Caller → Option Request} {t u : Caller} {o : Option Request}
    {r : Request} (h : Function.update requests t o u = some r) :
    (u = t ∧ o = some r) ∨ (u ≠ t ∧ requests u = some r) := by
  rcases eq_or_ne u t with rfl | hne
  · rw [Function.update_self] at h
    exact Or.inl ⟨rfl, h⟩
  · rw [Function.update_of_ne hne] at h
    exact Or.inr ⟨hne, h⟩

theorem inv_request {w w' : World D} (h : Inv w) {t : Caller} {enable : Bool}
    (hw : w.request t enable = some w') : Inv w' := by
  unfold World.request at hw
  rw [Option.ite_none_left_eq_some] at hw
  obtain ⟨hidle, heq⟩ := hw
  cases heq
  have hnone : w.requests t = none := by simpa using hidle
  refine ⟨h.mode, h.plain, fun u b before after hu => ?_, ?_, h.refused⟩
  · rcases request_of_update hu with ⟨-, hnew⟩ | ⟨-, hu⟩
    · cases hnew
    · exact h.written u b before after hu
  · refine h.intent.imp_right ?_
    rintro ⟨u, b, before, after, hu, hne⟩
    have hut : u ≠ t := by
      rintro rfl
      rw [hnone] at hu
      cases hu
    refine ⟨u, b, before, after, ?_, hne⟩
    dsimp only
    rw [Function.update_of_ne hut]
    exact hu

theorem inv_write {w w' : World D} (h : Inv w) {t : Caller} (hC : Orderly w (.write t))
    (hw : w.write t = some w') : Inv w' := by
  unfold World.write at hw
  split at hw
  · next enable ht =>
    obtain ⟨hstored, hothers⟩ := hC enable ht
    obtain ⟨-, -, rfl⟩ := Option.map_eq_some_iff.mp hw
    -- whether the storage took it or held it, the flag is now the value written
    have hflag : (w.storage.setRinexCollectionEnabled enable).1.rinexCollectionEnabled false =
        enable := by
      rcases flag_write w.storage enable with hnew | ⟨hfailed, hsame⟩
      · exact hnew
      · rw [hsame]
        exact hstored.resolve_left hfailed
    refine ⟨h.mode, h.plain, fun u b before after hu => ?_, ?_, h.refused⟩
    · rcases request_of_update hu with ⟨-, hnew⟩ | ⟨-, hu⟩
      · simp only [Option.some.injEq, Request.mk.injEq, Prod.mk.injEq] at hnew
        obtain ⟨rfl, -, rfl⟩ := hnew
        exact ⟨hflag, hflag⟩
      · have hb : b = enable := hothers u _ hu rfl
        exact ⟨(h.written u b before after hu).1, hb ▸ hflag⟩
    · rcases eq_or_ne w.flag enable with heq | hne
      · rcases h.intent with hintent | ⟨u, b, before, after, hu, hne⟩
        · exact Or.inl (hintent.trans (heq.trans hflag.symm))
        · have hut : u ≠ t := by
            rintro rfl
            rw [ht] at hu
            cases hu
          refine Or.inr ⟨u, b, before, after, ?_, hne⟩
          dsimp only
          rw [Function.update_of_ne hut]
          exact hu
      · exact Or.inr ⟨t, enable, w.flag, _, Function.update_self _ _ _, hne⟩
  · cases hw

theorem inv_send {w w' : World D} (h : Inv w) {t : Caller} (hC : Orderly w (.send t))
    (hw : w.send t = some w') : Inv w' := by
  unfold World.send at hw
  split at hw
  · next enable before after ht =>
    obtain ⟨hafter, hflag⟩ := h.written t enable before after ht
    have hwritten : ∀ u b before after,
        Function.update w.requests t none u = some ⟨b, some (before, after)⟩ →
          after = b ∧ w.flag = b := fun u b before after hu => by
      rcases request_of_update hu with ⟨-, hnew⟩ | ⟨-, hu⟩
      · cases hnew
      · exact h.written u b before after hu
    dsimp only at hw
    by_cases hroom : w.queue.length < kActions
    · rw [if_pos hroom] at hw
      cases hw
      refine ⟨h.mode, fun a ha => ?_, hwritten, Or.inl ?_, h.refused⟩
      · rcases List.mem_append.mp ha with ha | ha
        · exact h.plain a ha
        · rw [List.mem_singleton.mp ha]
          split_ifs <;> exact trivial
      · dsimp only
        rw [replay_append]
        refine Eq.trans ?_ hflag.symm
        rcases enable <;> rfl
    · -- no room: the call has not changed the flag
      have hbefore := (hC enable before after ht).resolve_left hroom
      rw [if_neg hroom] at hw
      cases hw
      refine ⟨h.mode, h.plain, hwritten, ?_, fun e he => ?_⟩
      · refine h.intent.imp_right ?_
        rintro ⟨u, b, before', after', hu, hne⟩
        have hut : u ≠ t := by
          rintro rfl
          rw [ht] at hu
          cases hu
          exact hne hbefore
        refine ⟨u, b, before', after', ?_, hne⟩
        dsimp only
        rw [Function.update_of_ne hut]
        exact hu
      · rcases List.mem_append.mp he with he | he
        · exact h.refused e he
        · rw [List.mem_singleton.mp he]
          exact hbefore.trans hafter.symm
  · cases hw

theorem inv_requestUm980Reset {w : World D} (h : Inv w) : Inv w.requestUm980Reset := by
  unfold World.requestUm980Reset
  split_ifs
  · refine ⟨h.mode, fun a ha => ?_, h.written, ?_, h.refused⟩
    · rcases List.mem_append.mp ha with ha | ha
      · exact h.plain a ha
      · rw [List.mem_singleton.mp ha]
        exact trivial
    · dsimp only
      rw [replay_append]
      exact h.intent
  · exact h

theorem inv_drain {w w' : World D} (h : Inv w) {exit a : Answers D} (hw : w.drain exit a = some w') :
    Inv w' := by
  unfold World.drain at hw
  split at hw
  · cases hw
  · next action queue hqueue =>
    cases hw
    have hplain : Plain action := h.plain action (by rw [hqueue]; exact List.mem_cons_self)
    obtain ⟨hmode, hraw⟩ := handleAction_spec h.mode hplain exit a
    have hintent := h.intent
    rw [hqueue] at hintent
    refine ⟨hmode, fun b hb => h.plain b (by rw [hqueue]; exact List.mem_cons_of_mem _ hb),
      h.written, ?_, h.refused⟩
    dsimp only
    rw [hraw]
    exact hintent

theorem inv_step {w w' : World D} (h : Inv w) {e : Event D} (hC : Orderly w e)
    (hw : w.step e = some w') : Inv w' := by
  cases e with
  | request t enable => exact inv_request h hw
  | write t => exact inv_write h hC hw
  | send t => exact inv_send h hC hw
  | requestUm980Reset =>
    cases hw
    exact inv_requestUm980Reset h
  | drain exit a => exact inv_drain h hw

/-- **The flag and the collection agree** in every state of a run whose steps are orderly. -/
theorem intent_agrees {w w' : World D} (h : Settled w) {events : List (Event D)}
    (hC : Along World.step Orderly w events) (hrun : run World.step w events = some w') : Agrees w' :=
  (run_invariant_along (I := Inv) (fun _ _ _ hI hC hs => inv_step hI hC hs) events h.inv hC hrun).agrees

/-! ### Two calls, and a full queue -/

def stored : Answers ℤ := ⟨0, true, ⟨1, 2, 3, true⟩, [], [], 0⟩

/-- A base that transmits, with nothing stored and nothing queued. -/
def resting : World ℤ where
  storage := .blank
  station := (Station.start true freshParser (resetRtcmState 0)).boot stored 0
  queue := []
  requests := fun _ => none

def call (t : Caller) (enable : Bool) : List (Event ℤ) := [.request t enable, .write t, .send t]

/-- Four resets fill the queue, collection is asked for, and the base catches up. -/
def fullQueue : List (Event ℤ) :=
  List.replicate 4 .requestUm980Reset ++ call .web true ++ List.replicate 4 (.drain stored stored)

/-- The web asks for collection and the panel for none, and they queue in the other order. -/
def crossed : List (Event ℤ) :=
  [.request .web true, .request .touch false, .write .web, .write .touch, .send .touch, .send .web,
    .drain stored stored, .drain stored stored]

/-- What `Agrees` compares. -/
def compared (w : World ℤ) : List (Option Bool) × List Bool × List (Bool × Bool) :=
  ([Caller.web, .touch].map fun t => (w.requests t).map Request.enable,
    [w.queue.isEmpty, w.station.rawCollection, w.flag], w.refused)

theorem settled_resting : Settled resting :=
  ⟨rfl, fun _ h => absurd h List.not_mem_nil, rfl, fun _ => rfl, rfl⟩

/-- **The intent can be lost**: a call finds no room, returns an error and leaves the flag on with
nothing collected; and two calls leave the collection running and the flag off. -/
theorem intent_lost :
    (∃ w, run World.step resting fullQueue = some w ∧ w.queue = [] ∧ (∀ t, w.requests t = none) ∧
      w.refused = [(false, true)] ∧ w.station.rawCollection = false ∧ w.flag = true) ∧
    ∃ w, run World.step resting crossed = some w ∧ w.queue = [] ∧ (∀ t, w.requests t = none) ∧
      w.refused = [] ∧ w.station.rawCollection = true ∧ w.flag = false := by
  have hlost : (run World.step resting fullQueue).map compared =
        some ([none, none], [true, false, true], [(false, true)]) ∧
      (run World.step resting crossed).map compared =
        some ([none, none], [true, true, false], []) := by
    decide +kernel
  have hidle : ∀ w : World ℤ, [Caller.web, .touch].map (fun t => (w.requests t).map Request.enable) =
      [none, none] → ∀ t, w.requests t = none := by
    intro w h t
    simp only [List.map_cons, List.map_nil, List.cons.injEq, Option.map_eq_none_iff] at h
    cases t with
    | web => exact h.1
    | touch => exact h.2.1
  obtain ⟨⟨w, hw, hcompared⟩, v, hv, hcompared'⟩ :=
    hlost.imp Option.map_eq_some_iff.mp Option.map_eq_some_iff.mp
  simp only [compared, Prod.mk.injEq, List.cons.injEq, List.isEmpty_iff, and_true]
    at hcompared hcompared'
  obtain ⟨hcalls, ⟨hqueue, hraw, hflag⟩, hrefused⟩ := hcompared
  obtain ⟨hcalls', ⟨hqueue', hraw', hflag'⟩, hrefused'⟩ := hcompared'
  exact ⟨⟨w, hw, hqueue, hidle w hcalls, hrefused, hraw, hflag⟩,
    v, hv, hqueue', hidle v hcalls', hrefused', hraw', hflag'⟩

/-- The storage takes the flag and no call has written, or there is room. -/
def calm (w : World ℤ) : Event ℤ → Bool
  | .write _ => ([true, false].all fun b => (w.storage.setBool "rinex_on" b).2 == some ESP_OK) &&
      [Caller.web, .touch].all fun t => (w.requests t).all fun r => !r.written.isSome
  | .send _ => decide (w.queue.length < kActions)
  | _ => true

theorem orderly_of_calm (w : World ℤ) (e : Event ℤ) (h : calm w e = true) : Orderly w e := by
  cases e with
  | write t =>
    simp only [calm, List.all_cons, List.all_nil, Bool.and_true, Bool.and_eq_true, beq_iff_eq] at h
    obtain ⟨⟨htrue, hfalse⟩, hweb, htouch⟩ := h
    intro enable _
    refine ⟨Or.inl ?_, fun u r hu hwritten => ?_⟩
    · cases enable with
      | false => exact hfalse
      | true => exact htrue
    · have hnone : (w.requests u).all (fun r => !r.written.isSome) = true := by
        cases u with
        | web => exact hweb
        | touch => exact htouch
      rw [hu, Option.all_some, hwritten] at hnone
      cases hnone
  | send t => exact fun enable before after _ => Or.inl (of_decide_eq_true h)
  | request t enable => exact trivial
  | requestUm980Reset => exact trivial
  | drain exit a => exact trivial

/-- One call after the other, and the base catches up with each. -/
def callsInTurn : List (Event ℤ) :=
  call .web true ++ [Event.drain stored stored] ++ call .touch false ++ [Event.drain stored stored]

theorem intent_agrees_resting :
    ∃ w, run World.step resting callsInTurn = some w ∧ w.queue = [] ∧ Agrees w := by
  have hcalm : ((run World.step resting callsInTurn).any (·.queue.isEmpty) &&
      checkAlong World.step calm resting callsInTurn) = true := by
    decide +kernel
  rw [Bool.and_eq_true, Option.any_eq_true] at hcalm
  obtain ⟨⟨w, hw, hempty⟩, hchecked⟩ := hcalm
  exact ⟨w, hw, List.isEmpty_iff.mp hempty,
    intent_agrees settled_resting (along_of_check orderly_of_calm _ _ hchecked) hw⟩

end GpsBase.Control.RinexIntent
