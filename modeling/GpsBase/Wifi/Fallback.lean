import GpsBase.Lib.Machine
import Mathlib.Tactic

/-! # The fallback access point

`recovery_loop` of `WifiManager`, with the functions that switch the radio, against the events of the
station. A step of the loop is one access to a flag, one call of the driver or one look at the stored
credentials; an event handler runs as a whole between two of them. The times are `int64_t`.

The loop looks at a flag and acts on it some steps later. As long as no event comes in between that makes
the look worthless, the access point is taken down only while the station is connected and raised only
after two minutes without a connection (`fallback_safe`). The flags do not see to that
(`fallback_unsafe`). -/

namespace GpsBase.Wifi.Fallback

open GpsBase.Lib.Machine

/-! ### Data -/

def kRetryIntervalMs : ℤ := 15000

def kApFallbackMs : ℤ := 120000

/-- A call of the WiFi driver by a function that switches the mode. -/
inductive DriverCall
  | getMode
  | stop
  | setMode
  | setConfig
  | setMac
  | start
  | setPs
  deriving DecidableEq

/-- A failure of the call ends the function. -/
def DriverCall.checked : DriverCall → Bool
  | .getMode | .setMode | .setConfig | .start => true
  | .stop | .setMac | .setPs => false

/-- What a step is answered: whether the driver call succeeded, whether the mode is not null, whether
`esp_wifi_connect` found a connection, and whether the stored credentials are valid. -/
structure Answer where
  ok : Bool := true
  mode : Bool := true
  conn : Bool := false
  creds : Bool := true

/-- What `recovery_loop` does next; `top` is between two iterations, and `now` the time the iteration
has read. Behind `request_connect` an iteration ends or, after `enable_ap_sta`, sets the retry time
once more. -/
inductive Point
  | top
  | refresh (now : ℤ)
  | pending (now : ℤ)
  | clear
  | tearDown
  | disabling (calls : List DriverCall)
  | timerDown
  | rearm
  | creds (now : ℤ)
  | connected (now : ℤ)
  | timer (now : ℤ)
  | offlineMs (now : ℤ)
  | active (now : ℤ)
  | stillOffline (now : ℤ)
  | load (now : ℤ)
  | raise (now : ℤ)
  | enabling (calls : List DriverCall) (now : ℤ)
  | dropped (now : ℤ)
  | timerUp (now : ℤ)
  | retryUp (now : ℤ)
  | retry (now : ℤ)
  | retrying (now : ℤ)
  | requestConnect (after : Option ℤ)
  | connect (after : Option ℤ)
  | disconnect (after : Option ℤ)
  | reconnect (after : Option ℤ)
  | retried (now : ℤ)

/-- A call of `enable_ap_sta` by the loop: what `connected_` was, when the connection had been lost, if no
address came since, and the time. -/
structure Raise where
  connected : Bool
  lost : Option ℤ
  now : ℤ
  deriving DecidableEq

/-- The flags of `WifiManager`, the clock and the loop; and the record: when `disconnected_at_ms_` was
last set, if no address came since, what `connected_` was at each call of `disable_access_point`, and the
calls of `enable_ap_sta`. -/
structure World where
  now : ℤ
  connected : Bool := false
  accessPointActive : Bool := false
  disableApPending : Bool := false
  disconnectedAtMs : ℤ := 0
  lastRetryMs : ℤ := 0
  point : Point := .top
  lost : Option ℤ := none
  tearDowns : List Bool := []
  raises : List Raise := []

inductive Event
  | gotIp
  | lostIp
  | staDisconnected
  | tick (ms : ℕ)
  | loop (a : Answer)

namespace World

/-! ### The event handlers -/

/-- `handle_event`, the station got an address. -/
def gotIp (w : World) : World :=
  { w with
    connected := true
    disconnectedAtMs := 0
    disableApPending := w.accessPointActive || w.disableApPending
    lost := none }

/-- What the two handlers of a loss have in common. -/
def linkDown (w : World) : World :=
  { w with
    connected := false
    disableApPending := false
    disconnectedAtMs := if w.disconnectedAtMs = 0 then w.now else w.disconnectedAtMs
    lost := if w.disconnectedAtMs = 0 then some w.now else w.lost }

/-- `handle_event`, the station lost its address. -/
def lostIp (w : World) : World := { w.linkDown with lastRetryMs := w.now - kRetryIntervalMs }

/-- `handle_event`, the station is disconnected. -/
def staDisconnected (w : World) : World :=
  if w.connected then { w.linkDown with lastRetryMs := w.now - kRetryIntervalMs } else w.linkDown

/-! ### The loop -/

def goto (w : World) (p : Point) : World := { w with point := p }

/-- A call of the driver: no result if it ends the function, else the calls that follow. -/
def drive (a : Answer) (call : DriverCall) (calls : List DriverCall) : Option (List DriverCall) :=
  if call.checked && !a.ok then none
  else some (if call = .getMode ∧ a.mode = true then .stop :: calls else calls)

/-- Behind `request_connect`. -/
def onward (w : World) : Option ℤ → World
  | none => w.goto .top
  | some now => w.goto (.retried now)

/-- A step of `recovery_loop`. -/
def advance (w : World) (a : Answer) : World :=
  match w.point with
  | .top => w.goto (.refresh w.now)
  | .refresh now => w.goto (.pending now)
  | .pending now => w.goto (if w.disableApPending then .clear else .creds now)
  -- `disable_access_point`, and the request again if it fails
  | .clear => ({ w with disableApPending := false } : World).goto .tearDown
  | .tearDown =>
    ({ w with tearDowns := w.tearDowns ++ [w.connected] } : World).goto
      (.disabling [.getMode, .setMode, .setMac, .start, .setPs])
  | .disabling (call :: calls) => w.goto ((drive a call calls).elim .rearm .disabling)
  | .disabling [] => ({ w with accessPointActive := false } : World).goto .timerDown
  | .timerDown => ({ w with disconnectedAtMs := 0 } : World).goto (.requestConnect none)
  | .rearm => ({ w with disableApPending := true } : World).goto .top
  -- the fallback
  | .creds now => w.goto (if a.creds then .connected now else .top)
  | .connected now => w.goto (if w.connected then .top else .timer now)
  | .timer now => w.goto (if w.disconnectedAtMs > 0 then .offlineMs now else .retry now)
  | .offlineMs now =>
    w.goto (if now - w.disconnectedAtMs ≥ kApFallbackMs then .active now else .retry now)
  | .active now => w.goto (if w.accessPointActive then .retry now else .stillOffline now)
  | .stillOffline now => w.goto (if w.connected then .retry now else .load now)
  | .load now => w.goto (if a.creds then .raise now else .top)
  | .raise now =>
    ({ w with raises := w.raises ++ [⟨w.connected, w.lost, w.now⟩] } : World).goto
      (.enabling [.getMode, .setMode, .setConfig, .setConfig, .setMac, .setMac, .start, .setPs] now)
  | .enabling (call :: calls) now => w.goto ((drive a call calls).elim .top fun calls => .enabling calls now)
  | .enabling [] now => ({ w with accessPointActive := true } : World).goto (.dropped now)
  | .dropped now => ({ w with connected := false } : World).goto (.timerUp now)
  | .timerUp now => ({ w with disconnectedAtMs := 0 } : World).goto (.retryUp now)
  | .retryUp now => ({ w with lastRetryMs := 0 } : World).goto (.requestConnect (some now))
  -- the retry
  | .retry now => w.goto (if now - w.lastRetryMs ≥ kRetryIntervalMs then .retrying now else .top)
  | .retrying now => ({ w with lastRetryMs := now } : World).goto (.requestConnect none)
  -- `request_connect`
  | .requestConnect after => ({ w with lastRetryMs := w.now } : World).goto (.connect after)
  | .connect after => if a.conn then w.goto (.disconnect after) else w.onward after
  | .disconnect after => w.goto (.reconnect after)
  | .reconnect after => w.onward after
  | .retried now => ({ w with lastRetryMs := now } : World).goto .top

def step (w : World) : Event → Option World
  | .gotIp => some w.gotIp
  | .lostIp => some w.lostIp
  | .staDisconnected => some w.staDisconnected
  | .tick ms => some { w with now := w.now + ms }
  | .loop a => some (w.advance a)

end World

/-! ### Safety -/

/-- A connected station with the access point up has asked for it to be taken down. -/
def Settled (w : World) : Prop :=
  w.connected = true → w.accessPointActive = true → w.disableApPending = true

/-- **The fallback is safe**: the access point was taken down only while the station was connected, the
request is there between two iterations, and the access point was raised only after two minutes. -/
structure Safe (w : World) : Prop where
  tearDowns : ∀ c ∈ w.tearDowns, c = true
  settled : w.point = .top → Settled w
  raises : ∀ r ∈ w.raises, r.connected = false ∧ ∃ t, r.lost = some t ∧ t + kApFallbackMs ≤ r.now

/-- The loop has found the request and not yet called `disable_access_point`. -/
def Point.tearsDown : Point → Bool
  | .clear | .tearDown => true
  | _ => false

/-- The loop has found the station offline for two minutes, and not yet that it still is. -/
def Point.overdue : Point → Bool
  | .active _ | .stillOffline _ => true
  | _ => false

/-- The loop has found that the station still is offline and not yet called `enable_ap_sta`, or has raised
the access point and not yet cleared `connected_`. -/
def Point.raises : Point → Bool
  | .load _ | .raise _ | .dropped _ => true
  | _ => false

/-- **The condition on a step.** The connection is not lost between the look at the request and the
call, nor, after it came back, between the offline time and the second look at `connected_`; no address
comes between that look and the call, or between the two stores at the end of `enable_ap_sta`; and a
failure asks again only while the station is connected. -/
def Orderly (w : World) : Event → Prop
  | .gotIp => w.point.raises = false
  | .lostIp | .staDisconnected =>
    w.point.tearsDown = false ∧ (w.point.overdue = true → w.disconnectedAtMs ≠ 0)
  | .loop _ => w.point = .rearm → w.connected = true
  | .tick _ => True

/-- The loop is about to begin; nothing has been asked of the radio yet. -/
structure Fresh (w : World) : Prop where
  connected : w.connected = false
  pending : w.disableApPending = false
  timer : w.disconnectedAtMs = 0
  point : w.point = .top
  tearDowns : w.tearDowns = []
  raises : w.raises = []

/-! ### The request -/

/-- What holds of the request where the loop is: a station that connects while the loop switches the mode
has its request back, or the access point is down. -/
def World.Asked (w : World) : Point → Prop
  | .clear | .tearDown | .disabling _ | .rearm | .dropped _ => True
  | .timerDown | .stillOffline _ | .load _ | .raise _ | .enabling _ _ => w.accessPointActive = false
  | _ => Settled w

theorem settled_of_down {w : World} (h : w.accessPointActive = false) : Settled w := fun _ hactive =>
  absurd (h.symm.trans hactive) Bool.false_ne_true

theorem settled_of_offline {w : World} (h : w.connected = false) : Settled w := fun hconnected =>
  absurd (h.symm.trans hconnected) Bool.false_ne_true

theorem settled_gotIp (w : World) : Settled w.gotIp := by
  intro _ hactive
  change w.accessPointActive = true at hactive
  change (w.accessPointActive || w.disableApPending) = true
  rw [hactive, Bool.true_or]

/-- An event handler leaves the request as it should be, and the access point as it is. -/
theorem asked_handler {w w' : World} (hsettled : Settled w')
    (hactive : w'.accessPointActive = w.accessPointActive) (hpoint : w'.point = w.point)
    (h : w.Asked w.point) : w'.Asked w'.point := by
  rw [hpoint]
  revert h
  cases w.point with
  | clear | tearDown | disabling | rearm | dropped => exact fun _ => trivial
  | timerDown | stillOffline | load | raise | enabling => exact fun h => hactive.trans h
  | _ => exact fun _ => hsettled

theorem asked_onward {w : World} (h : Settled w) (after : Option ℤ) :
    (w.onward after).Asked (w.onward after).point := by
  cases after <;> exact h

theorem asked_advance {w : World} (h : w.Asked w.point) (a : Answer) :
    (w.advance a).Asked (w.advance a).point := by
  revert h
  unfold World.advance
  cases hp : w.point with
  | clear | tearDown => exact fun _ => trivial
  | disabling calls =>
    intro _
    cases calls with
    | nil => exact rfl
    | cons call calls =>
      dsimp only
      cases World.drive a call calls <;> exact trivial
  | timerDown => exact fun h => settled_of_down h
  | rearm => exact fun _ _ _ => rfl
  | dropped now => exact fun _ => settled_of_offline rfl
  | enabling calls now =>
    intro h
    cases calls with
    | nil => exact trivial
    | cons call calls =>
      dsimp only
      cases World.drive a call calls with
      | none => exact settled_of_down h
      | some calls => exact h
  | raise now => exact fun h => h
  | load now =>
    intro h
    dsimp only
    split_ifs
    · exact h
    · exact settled_of_down h
  | stillOffline now =>
    intro h
    dsimp only
    split_ifs
    · exact settled_of_down h
    · exact h
  | active now =>
    intro h
    dsimp only
    split_ifs with hactive
    · exact h
    · exact Bool.eq_false_of_not_eq_true hactive
  | pending now =>
    intro h
    dsimp only
    split_ifs
    · exact trivial
    · exact h
  | creds now | connected now | timer now | offlineMs now | retry now =>
    intro h
    dsimp only
    split_ifs
    · exact h
    · exact h
  | connect after =>
    intro h
    dsimp only
    split_ifs
    · exact h
    · exact asked_onward h after
  | reconnect after => exact fun h => asked_onward h after
  | _ => exact fun h => h

theorem asked_step {w w' : World} (h : w.Asked w.point) {e : Event} (hw : w.step e = some w') :
    w'.Asked w'.point := by
  cases e with
  | gotIp =>
    cases hw
    exact asked_handler (w := w) (settled_gotIp w) rfl rfl h
  | lostIp =>
    cases hw
    exact asked_handler (w := w) (settled_of_offline rfl) rfl rfl h
  | staDisconnected =>
    cases hw
    unfold World.staDisconnected
    split_ifs
    · exact asked_handler (w := w) (settled_of_offline rfl) rfl rfl h
    · exact asked_handler (w := w) (settled_of_offline rfl) rfl rfl h
  | tick ms =>
    cases hw
    change ({ w with now := w.now + ms } : World).Asked w.point
    revert h
    cases w.point <;> exact fun h => h
  | loop a =>
    cases hw
    exact asked_advance h a

/-- **The request is there** between two iterations of any run. -/
theorem settled_of_run {w w' : World} (h : Fresh w) {events : List Event}
    (hrun : run World.step w events = some w') (htop : w'.point = .top) : Settled w' := by
  have hasked := run_invariant (I := fun w => w.Asked w.point) (fun _ _ _ hI hs => asked_step hI hs)
    (by rw [h.point]; exact settled_of_offline h.connected) hrun
  rw [htop] at hasked
  exact hasked

/-! ### The invariant -/

/-- The station has been offline for two minutes before `now`. -/
def Overdue (w : World) (now : ℤ) : Prop :=
  w.disconnectedAtMs ≠ 0 ∧ w.disconnectedAtMs + kApFallbackMs ≤ now

/-- What holds where the loop is. -/
def World.Here (w : World) : Point → Prop
  | .refresh now | .pending now => now ≤ w.now
  | .clear | .tearDown => w.connected = true
  | .creds now | .connected now | .timer now =>
    (w.disableApPending = true → w.accessPointActive = true) ∧ now ≤ w.now
  | .offlineMs now =>
    (w.disableApPending = true → w.accessPointActive = true) ∧ now ≤ w.now ∧
      (w.disconnectedAtMs ≠ 0 ∨ w.connected = true ∨ now ≤ 0)
  | .active now =>
    (w.disableApPending = true → w.accessPointActive = true) ∧ now ≤ w.now ∧
      (Overdue w now ∨ w.connected = true ∧ w.disconnectedAtMs = 0)
  | .stillOffline now =>
    w.accessPointActive = false ∧ w.disableApPending = false ∧ now ≤ w.now ∧
      (Overdue w now ∨ w.connected = true ∧ w.disconnectedAtMs = 0)
  | .load now | .raise now =>
    w.accessPointActive = false ∧ w.disableApPending = false ∧ now ≤ w.now ∧ Overdue w now ∧
      w.connected = false
  | .enabling _ _ => w.accessPointActive = false ∧ w.disableApPending = false
  | .dropped _ => w.disableApPending = false
  | _ => True

/-- What holds in a run whose steps are orderly. -/
structure Inv (w : World) : Prop where
  pending : w.disableApPending = true → w.connected = true
  timer : w.disconnectedAtMs ≠ 0 → w.lost = some w.disconnectedAtMs
  tearDowns : ∀ c ∈ w.tearDowns, c = true
  raises : ∀ r ∈ w.raises, r.connected = false ∧ ∃ t, r.lost = some t ∧ t + kApFallbackMs ≤ r.now
  here : w.Here w.point

theorem Fresh.inv {w : World} (h : Fresh w) : Inv w where
  pending hpending := by
    rw [h.pending] at hpending
    cases hpending
  timer hne := absurd h.timer hne
  tearDowns c hc := by
    rw [h.tearDowns] at hc
    cases hc
  raises r hr := by
    rw [h.raises] at hr
    cases hr
  here := by
    rw [h.point]
    exact trivial

/-! ### What an event keeps -/

theorem here_gotIp {w : World} {p : Point} (hp : p.raises = false) (h : w.Here p) : w.gotIp.Here p := by
  have hactive : (w.disableApPending = true → w.accessPointActive = true) →
      w.gotIp.disableApPending = true → w.gotIp.accessPointActive = true := by
    intro hwas hpending
    change (w.accessPointActive || w.disableApPending) = true at hpending
    rcases (Bool.or_eq_true _ _).mp hpending with ha | hd
    · exact ha
    · exact hwas hd
  have hnone : w.accessPointActive = false → w.disableApPending = false →
      w.gotIp.disableApPending = false := by
    intro ha hd
    change (w.accessPointActive || w.disableApPending) = false
    rw [ha, hd]
    rfl
  cases p with
  | refresh now => exact h
  | pending now => exact h
  | clear => exact rfl
  | tearDown => exact rfl
  | creds now => exact ⟨hactive h.1, h.2⟩
  | connected now => exact ⟨hactive h.1, h.2⟩
  | timer now => exact ⟨hactive h.1, h.2⟩
  | offlineMs now => exact ⟨hactive h.1, h.2.1, Or.inr (Or.inl rfl)⟩
  | active now => exact ⟨hactive h.1, h.2.1, Or.inr ⟨rfl, rfl⟩⟩
  | stillOffline now => exact ⟨h.1, hnone h.1 h.2.1, h.2.2.1, Or.inr ⟨rfl, rfl⟩⟩
  | load now => cases hp
  | raise now => cases hp
  | enabling calls now => exact ⟨h.1, hnone h.1 h.2⟩
  | dropped now => cases hp
  | _ => exact trivial

theorem disconnectedAtMs_linkDown {w : World} (h : w.disconnectedAtMs ≠ 0) :
    w.linkDown.disconnectedAtMs = w.disconnectedAtMs := if_neg h

theorem here_linkDown {w : World} {p : Point} (hp : p.tearsDown = false)
    (htimer : p.overdue = true → w.disconnectedAtMs ≠ 0) (h : w.Here p) : w.linkDown.Here p := by
  have hoverdue : ∀ now, w.disconnectedAtMs ≠ 0 →
      (Overdue w now ∨ w.connected = true ∧ w.disconnectedAtMs = 0) → Overdue w.linkDown now := by
    intro now hne hor
    have ho := hor.resolve_right fun hzero => hne hzero.2
    unfold Overdue
    rw [disconnectedAtMs_linkDown hne]
    exact ho
  cases p with
  | refresh now => exact h
  | pending now => exact h
  | clear => cases hp
  | tearDown => cases hp
  | creds now => exact ⟨fun hpending => (nomatch hpending), h.2⟩
  | connected now => exact ⟨fun hpending => (nomatch hpending), h.2⟩
  | timer now => exact ⟨fun hpending => (nomatch hpending), h.2⟩
  | offlineMs now =>
    obtain ⟨-, hnow, hor⟩ := h
    refine ⟨fun hpending => (nomatch hpending), hnow, ?_⟩
    by_cases hzero : w.disconnectedAtMs = 0
    · by_cases hclock : w.now = 0
      · exact Or.inr (Or.inr (hnow.trans hclock.le))
      · refine Or.inl ?_
        unfold World.linkDown
        dsimp only
        rw [if_pos hzero]
        exact hclock
    · exact Or.inl (by rwa [disconnectedAtMs_linkDown hzero])
  | active now =>
    exact ⟨fun hpending => (nomatch hpending), h.2.1, Or.inl (hoverdue now (htimer rfl) h.2.2)⟩
  | stillOffline now => exact ⟨h.1, rfl, h.2.2.1, Or.inl (hoverdue now (htimer rfl) h.2.2.2)⟩
  | load now => exact ⟨h.1, rfl, h.2.2.1, hoverdue now h.2.2.2.1.1 (Or.inl h.2.2.2.1), rfl⟩
  | raise now => exact ⟨h.1, rfl, h.2.2.1, hoverdue now h.2.2.2.1.1 (Or.inl h.2.2.2.1), rfl⟩
  | enabling calls now => exact ⟨h.1, rfl⟩
  | dropped now => exact rfl
  | _ => exact trivial

theorem here_lastRetryMs {w : World} {p : Point} (h : w.Here p) (ms : ℤ) :
    ({ w with lastRetryMs := ms } : World).Here p := by
  cases p <;> exact h

theorem Inv.lastRetryMs {w : World} (h : Inv w) (ms : ℤ) : Inv { w with lastRetryMs := ms } :=
  ⟨h.pending, h.timer, h.tearDowns, h.raises, here_lastRetryMs h.here ms⟩

theorem inv_gotIp {w : World} (h : Inv w) (hC : w.point.raises = false) : Inv w.gotIp :=
  ⟨fun _ => rfl, fun hne => absurd rfl hne, h.tearDowns, h.raises, here_gotIp hC h.here⟩

theorem inv_linkDown {w : World} (h : Inv w) (hp : w.point.tearsDown = false)
    (htimer : w.point.overdue = true → w.disconnectedAtMs ≠ 0) : Inv w.linkDown := by
  refine ⟨fun hpending => (nomatch hpending), fun hne => ?_, h.tearDowns, h.raises,
    here_linkDown hp htimer h.here⟩
  unfold World.linkDown at hne ⊢
  dsimp only at hne ⊢
  by_cases hzero : w.disconnectedAtMs = 0
  · rw [if_pos hzero, if_pos hzero]
  · rw [if_neg hzero, if_neg hzero]
    exact h.timer hzero

theorem inv_tick {w : World} (h : Inv w) (ms : ℕ) : Inv { w with now := w.now + ms } := by
  refine ⟨h.pending, h.timer, h.tearDowns, h.raises, ?_⟩
  have hle : ∀ {now}, now ≤ w.now → now ≤ w.now + ms := fun hnow => by omega
  have hhere := h.here
  change ({ w with now := w.now + ms } : World).Here w.point
  cases hp : w.point with
  | refresh now => rw [hp] at hhere; exact hle hhere
  | pending now => rw [hp] at hhere; exact hle hhere
  | creds now => rw [hp] at hhere; exact ⟨hhere.1, hle hhere.2⟩
  | connected now => rw [hp] at hhere; exact ⟨hhere.1, hle hhere.2⟩
  | timer now => rw [hp] at hhere; exact ⟨hhere.1, hle hhere.2⟩
  | offlineMs now => rw [hp] at hhere; exact ⟨hhere.1, hle hhere.2.1, hhere.2.2⟩
  | active now => rw [hp] at hhere; exact ⟨hhere.1, hle hhere.2.1, hhere.2.2⟩
  | stillOffline now => rw [hp] at hhere; exact ⟨hhere.1, hhere.2.1, hle hhere.2.2.1, hhere.2.2.2⟩
  | load now => rw [hp] at hhere; exact ⟨hhere.1, hhere.2.1, hle hhere.2.2.1, hhere.2.2.2⟩
  | raise now => rw [hp] at hhere; exact ⟨hhere.1, hhere.2.1, hle hhere.2.2.1, hhere.2.2.2⟩
  | _ => rw [hp] at hhere; exact hhere

/-! ### What the loop keeps -/

theorem Inv.goto {w : World} (h : Inv w) {p : Point} (hp : w.Here p) : Inv (w.goto p) :=
  ⟨h.pending, h.timer, h.tearDowns, h.raises, by cases p <;> exact hp⟩

theorem Inv.drive {w : World} (h : Inv w) (failed : Point) (next : List DriverCall → Point)
    (hfailed : w.Here failed) (hnext : ∀ calls, w.Here (next calls)) (o : Option (List DriverCall)) :
    Inv (w.goto (o.elim failed next)) := by
  cases o with
  | none => exact h.goto hfailed
  | some calls => exact h.goto (hnext calls)

theorem Inv.onward {w : World} (h : Inv w) (after : Option ℤ) : Inv (w.onward after) := by
  cases after with
  | none => exact h.goto trivial
  | some now => exact h.goto trivial

theorem here_active {w : World} {now : ℤ}
    (hactive : w.disableApPending = true → w.accessPointActive = true) (hnow : now ≤ w.now)
    (hor : w.disconnectedAtMs ≠ 0 ∨ w.connected = true ∨ now ≤ 0)
    (hlong : now - w.disconnectedAtMs ≥ kApFallbackMs) : w.Here (.active now) := by
  refine ⟨hactive, hnow, ?_⟩
  by_cases hzero : w.disconnectedAtMs = 0
  · -- an address came between the two loads, and the second one gave no time at all
    rw [hzero] at hlong
    unfold kApFallbackMs at hlong
    rcases hor with hne | hconnected | hle
    · exact absurd hzero hne
    · exact Or.inr ⟨hconnected, hzero⟩
    · omega
  · exact Or.inl ⟨hzero, by omega⟩

theorem inv_advance {w : World} (h : Inv w) {a : Answer}
    (hC : w.point = .rearm → w.connected = true) : Inv (w.advance a) := by
  have hhere := h.here
  revert hhere
  unfold World.advance
  cases hp : w.point with
  | top =>
    intro _
    exact h.goto le_rfl
  | refresh now =>
    intro hhere
    exact h.goto hhere
  | pending now =>
    intro hhere
    dsimp only
    split_ifs with hpending
    · exact h.goto (h.pending hpending)
    · exact h.goto ⟨fun hp => absurd hp hpending, hhere⟩
  | clear =>
    intro hhere
    exact ⟨fun hpending => (nomatch hpending), h.timer, h.tearDowns, h.raises, hhere⟩
  | tearDown =>
    intro hhere
    refine ⟨h.pending, h.timer, fun c hc => ?_, h.raises, trivial⟩
    rcases List.mem_append.mp hc with hc | hc
    · exact h.tearDowns c hc
    · exact (List.mem_singleton.mp hc).trans hhere
  | disabling calls =>
    intro _
    cases calls with
    | nil => exact ⟨h.pending, h.timer, h.tearDowns, h.raises, trivial⟩
    | cons call calls => exact h.drive .rearm .disabling trivial (fun _ => trivial) _
  | timerDown =>
    intro _
    exact ⟨h.pending, fun hne => absurd rfl hne, h.tearDowns, h.raises, trivial⟩
  | rearm =>
    intro _
    exact ⟨fun _ => hC hp, h.timer, h.tearDowns, h.raises, trivial⟩
  | creds now =>
    intro hhere
    dsimp only
    split_ifs
    · exact h.goto hhere
    · exact h.goto trivial
  | connected now =>
    intro hhere
    dsimp only
    split_ifs
    · exact h.goto trivial
    · exact h.goto hhere
  | timer now =>
    intro hhere
    dsimp only
    split_ifs with hset
    · exact h.goto ⟨hhere.1, hhere.2, Or.inl hset.ne'⟩
    · exact h.goto trivial
  | offlineMs now =>
    intro hhere
    dsimp only
    split_ifs with hlong
    · exact h.goto (here_active hhere.1 hhere.2.1 hhere.2.2 hlong)
    · exact h.goto trivial
  | active now =>
    intro hhere
    dsimp only
    split_ifs with hactive
    · exact h.goto trivial
    · rw [Bool.not_eq_true] at hactive
      have hpending : w.disableApPending = false := by
        by_contra hnot
        rw [hhere.1 (by simpa using hnot)] at hactive
        cases hactive
      exact h.goto ⟨hactive, hpending, hhere.2⟩
  | stillOffline now =>
    intro hhere
    dsimp only
    split_ifs with hconnected
    · exact h.goto trivial
    · have hoverdue := hhere.2.2.2.resolve_right fun hback => hconnected hback.1
      rw [Bool.not_eq_true] at hconnected
      exact h.goto ⟨hhere.1, hhere.2.1, hhere.2.2.1, hoverdue, hconnected⟩
  | load now =>
    intro hhere
    dsimp only
    split_ifs
    · exact h.goto hhere
    · exact h.goto trivial
  | raise now =>
    -- the second look at `connected_` was the last before `enable_ap_sta`
    rintro ⟨hactive, hpending, hnow, hoverdue, hconnected⟩
    refine ⟨h.pending, h.timer, h.tearDowns, fun r hr => ?_, ⟨hactive, hpending⟩⟩
    rcases List.mem_append.mp hr with hr | hr
    · exact h.raises r hr
    · rw [List.mem_singleton.mp hr]
      exact ⟨hconnected, w.disconnectedAtMs, h.timer hoverdue.1, hoverdue.2.trans hnow⟩
  | enabling calls now =>
    intro hhere
    cases calls with
    | nil => exact ⟨h.pending, h.timer, h.tearDowns, h.raises, hhere.2⟩
    | cons call calls => exact h.drive .top (fun calls => .enabling calls now) trivial (fun _ => hhere) _
  | dropped now =>
    intro hhere
    refine ⟨fun hpending => ?_, h.timer, h.tearDowns, h.raises, trivial⟩
    exact absurd (hhere.symm.trans hpending) Bool.false_ne_true
  | timerUp now =>
    intro hhere
    exact ⟨h.pending, fun hne => absurd rfl hne, h.tearDowns, h.raises, hhere⟩
  | retryUp now =>
    intro hhere
    exact (h.lastRetryMs 0).goto hhere
  | retry now =>
    intro hhere
    dsimp only
    split_ifs
    · exact h.goto hhere
    · exact h.goto hhere
  | retrying now =>
    intro hhere
    exact (h.lastRetryMs now).goto hhere
  | requestConnect after =>
    intro hhere
    exact (h.lastRetryMs w.now).goto hhere
  | connect after =>
    intro hhere
    dsimp only
    split_ifs
    · exact h.goto hhere
    · exact h.onward after
  | disconnect after =>
    intro hhere
    exact h.goto hhere
  | reconnect after =>
    intro hhere
    exact h.onward after
  | retried now =>
    intro hhere
    exact (h.lastRetryMs now).goto hhere

theorem inv_step {w w' : World} (h : Inv w) {e : Event} (hC : Orderly w e) (hw : w.step e = some w') :
    Inv w' := by
  cases e with
  | gotIp =>
    cases hw
    exact inv_gotIp h hC
  | lostIp =>
    cases hw
    exact (inv_linkDown h hC.1 hC.2).lastRetryMs _
  | staDisconnected =>
    cases hw
    unfold World.staDisconnected
    split_ifs
    · exact (inv_linkDown h hC.1 hC.2).lastRetryMs _
    · exact inv_linkDown h hC.1 hC.2
  | tick ms =>
    cases hw
    exact inv_tick h ms
  | loop a =>
    cases hw
    exact inv_advance h hC

/-- **The fallback is safe** in every state of a run whose steps are orderly. -/
theorem fallback_safe {w w' : World} (h : Fresh w) {events : List Event}
    (hC : Along World.step Orderly w events) (hrun : run World.step w events = some w') : Safe w' := by
  have hinv := run_invariant_along (I := Inv) (fun _ _ _ hI hC hs => inv_step hI hC hs) events h.inv hC hrun
  exact ⟨hinv.tearDowns, settled_of_run h hrun, hinv.raises⟩

/-! ### Events between a look and the call -/

/-- The loop begins, with the station-only mode on. -/
def booted : World := { now := 1000 }

/-- Steps of the loop that all succeed. -/
def onward (steps : ℕ) : List Event := List.replicate steps (.loop {})

/-- Two minutes offline, up to the second look at `connected_`. -/
def offline : List Event := [Event.staDisconnected, .tick 120000] ++ onward 9

/-- The access point is raised, an address comes, and the loop finds the request. -/
def found : List Event := offline ++ onward 18 ++ [Event.gotIp] ++ onward 3

/-- **The fallback is not safe**: the access point is raised for a station that has just connected; it is
taken down when the connection is lost between the look and the call; and it is taken down when the
connection is lost during a call that fails, which asks again. -/
theorem fallback_unsafe :
    (∃ w, run World.step booted (offline ++ [Event.gotIp] ++ onward 2) = some w ∧
      w.raises = [⟨true, none, 121000⟩]) ∧
    (∃ w, run World.step booted (found ++ [Event.staDisconnected] ++ onward 2) = some w ∧
      w.tearDowns = [false]) ∧
    ∃ w, run World.step booted
      (found ++ onward 2 ++ [Event.staDisconnected, .loop ⟨false, true, false, true⟩] ++
        onward 6) = some w ∧
      w.tearDowns = [true, false] := by
  have hruns : (run World.step booted (offline ++ [Event.gotIp] ++ onward 2)).map World.raises =
        some [⟨true, none, 121000⟩] ∧
      (run World.step booted (found ++ [Event.staDisconnected] ++ onward 2)).map World.tearDowns =
        some [false] ∧
      (run World.step booted
        (found ++ onward 2 ++ [Event.staDisconnected, .loop ⟨false, true, false, true⟩] ++
          onward 6)).map World.tearDowns = some [true, false] := by
    decide +kernel
  obtain ⟨hraise, hlost, hagain⟩ := hruns
  exact ⟨Option.map_eq_some_iff.mp hraise, Option.map_eq_some_iff.mp hlost,
    Option.map_eq_some_iff.mp hagain⟩

/-- `Orderly` as it is computed. -/
def calm (w : World) : Event → Bool
  | .gotIp => !w.point.raises
  | .lostIp | .staDisconnected => !w.point.tearsDown && (!w.point.overdue || w.disconnectedAtMs != 0)
  | .loop _ =>
    match w.point with
    | .rearm => w.connected
    | _ => true
  | .tick _ => true

theorem orderly_of_calm (w : World) (e : Event) (h : calm w e = true) : Orderly w e := by
  have hlost : (!w.point.tearsDown && (!w.point.overdue || w.disconnectedAtMs != 0)) = true →
      w.point.tearsDown = false ∧ (w.point.overdue = true → w.disconnectedAtMs ≠ 0) := by
    intro h
    simp only [Bool.and_eq_true, Bool.or_eq_true, Bool.not_eq_true', bne_iff_ne] at h
    refine ⟨h.1, fun hoverdue => h.2.resolve_left fun hnot => ?_⟩
    rw [hnot] at hoverdue
    cases hoverdue
  cases e with
  | gotIp =>
    have hraises : (!w.point.raises) = true := h
    rwa [Bool.not_eq_true'] at hraises
  | lostIp => exact hlost h
  | staDisconnected => exact hlost h
  | tick ms => exact trivial
  | loop a =>
    intro hp
    unfold calm at h
    dsimp only at h
    rwa [hp] at h

/-- The access point is raised, and taken down when the station has connected. -/
theorem fallback_safe_booted :
    ∃ w, run World.step booted (found ++ onward 12) = some w ∧ Safe w ∧ w.raises.length = 1 ∧
      w.tearDowns = [true] ∧ w.accessPointActive = false := by
  have hcalm : ((run World.step booted (found ++ onward 12)).map fun w =>
        (w.raises.length, w.tearDowns, w.accessPointActive)) = some (1, [true], false) ∧
      checkAlong World.step calm booted (found ++ onward 12) = true := by
    decide +kernel
  obtain ⟨hrun, hchecked⟩ := hcalm
  obtain ⟨w, hw, heq⟩ := Option.map_eq_some_iff.mp hrun
  simp only [Prod.mk.injEq] at heq
  refine ⟨w, hw, fallback_safe ⟨rfl, rfl, rfl, rfl, rfl, rfl⟩
    (along_of_check orderly_of_calm _ _ hchecked) hw, heq⟩

end GpsBase.Wifi.Fallback
