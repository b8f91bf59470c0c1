import GpsBase.Lib.Machine
import GpsBase.Settings.Records

/-! # The firmware upload

`update_upload_handler` as a machine: each step is one call it makes, with what the call answers. The
handler keeps the calls in order. The boot partition changes if and only if the whole image was received
and written (`upload_all_or_nothing`), and a handle that was opened is closed once. -/

namespace GpsBase.Web.Upload

open GpsBase.Lib.Machine GpsBase.Settings.Records

/-! ### The handler -/

/-- What `httpd_req_recv` returns: some bytes, `HTTPD_SOCK_ERR_TIMEOUT`, or zero or another error. -/
inductive Received
  | data (bytes : List UInt8)
  | timeout
  | failed
  deriving DecidableEq

/-- A call of the handler, with what was answered. -/
inductive Call
  | setStreamsSuspended (suspended : Bool)
  | otaBegin (result : EspErr)
  | recv (r : Received)
  | otaWrite (data : List UInt8) (result : EspErr)
  | otaAbort
  | otaEnd (result : EspErr)
  | setBootPartition (result : EspErr)
  deriving DecidableEq

/-- The text of an error: its own, or `esp_err_to_name`. -/
inductive Message
  | text (s : String)
  | errToName (e : EspErr)
  deriving DecidableEq

inductive Reply
  | unauthorized
  | error (status : ℕ) (message : Message)
  | accepted
  deriving DecidableEq

/-- The next call of the handler; in `receiving`, `remaining` and `consecutive_timeouts`. -/
inductive Phase
  | authorizing
  | suspending
  | checking
  | beginning
  | receiving (remaining consecutiveTimeouts : ℕ)
  | writing (remaining : ℕ) (data : List UInt8)
  | aborting (reply : Reply)
  | ending
  | booting
  | resuming (reply : Reply)
  | finished (reply : Reply)
  deriving DecidableEq

/-- A request, how far its handler is, the calls so far, and whether they changed the boot partition. -/
structure Handler where
  contentLen : ℕ
  phase : Phase := .authorizing
  calls : List Call := []
  booted : Bool := false

/-- What a call answers; `proceed` is the return of a call without a result. -/
inductive Input
  | authorize (granted : Bool)
  | proceed
  | partition (size : Option ℕ)
  | begun (result : EspErr)
  | recv (r : Received)
  | written (result : EspErr)
  | ended (result : EspErr)
  | booted (result : EspErr)

def kBufferSize : ℕ := 4096

/-- `esp_err_to_name` of a result, with status 500. -/
def failure (e : EspErr) : Reply := .error 500 (.errToName e)

namespace Handler

def goes (h : Handler) (phase : Phase) : Handler := { h with phase := phase }

def makes (h : Handler) (c : Call) : Handler := { h with calls := h.calls ++ [c] }

/-- The checks before `esp_ota_begin`. -/
def check (h : Handler) (size : Option ℕ) : Phase :=
  if h.contentLen = 0 then .resuming (.error 400 (.text "Empty image"))
  else
    match size with
    | none => .resuming (.error 400 (.text "Image too large"))
    | some size =>
      if size < h.contentLen then .resuming (.error 400 (.text "Image too large")) else .beginning

/-- What `httpd_req_recv` returned. -/
def receive (remaining consecutiveTimeouts : ℕ) : Received → Option Phase
  | .timeout =>
    if consecutiveTimeouts < 20 then some (.receiving remaining (consecutiveTimeouts + 1))
    else some (.aborting (.error 500 (.text "Upload interrupted")))
  | .failed => some (.aborting (.error 500 (.text "Upload interrupted")))
  | .data bytes =>
    if 0 < bytes.length ∧ bytes.length ≤ min kBufferSize remaining then some (.writing remaining bytes)
    else none

/-- What `esp_ota_write` returned. -/
def wrote (remaining : ℕ) (data : List UInt8) (result : EspErr) : Phase :=
  if result ≠ ESP_OK then .aborting (failure result)
  else if 0 < remaining - data.length then .receiving (remaining - data.length) 0
  else .ending

/-- `update_upload_handler`, one call after the other. -/
def step (h : Handler) (i : Input) : Option Handler :=
  match h.phase, i with
  | .authorizing, .authorize false => some (h.goes (.finished .unauthorized))
  | .authorizing, .authorize true => some (h.goes .suspending)
  | .suspending, .proceed => some ((h.makes (.setStreamsSuspended true)).goes .checking)
  | .checking, .partition size => some (h.goes (h.check size))
  | .beginning, .begun result =>
    some ((h.makes (.otaBegin result)).goes
      (if result ≠ ESP_OK then .resuming (failure result) else .receiving h.contentLen 0))
  | .receiving remaining timeouts, .recv r =>
    (receive remaining timeouts r).map fun phase => (h.makes (.recv r)).goes phase
  | .writing remaining data, .written result =>
    some ((h.makes (.otaWrite data result)).goes (wrote remaining data result))
  | .aborting reply, .proceed => some ((h.makes .otaAbort).goes (.resuming reply))
  | .ending, .ended result =>
    some ((h.makes (.otaEnd result)).goes
      (if result = ESP_OK then .booting else .resuming (failure result)))
  | .booting, .booted result =>
    let h := h.makes (.setBootPartition result)
    some (if result = ESP_OK then { h with booted := true }.goes (.finished .accepted)
      else h.goes (.resuming (failure result)))
  | .resuming reply, .proceed => some ((h.makes (.setStreamsSuspended false)).goes (.finished reply))
  | _, _ => none

end Handler

/-! ### What the calls say -/

/-- The bytes received, call by call. -/
def chunks (calls : List Call) : List (List UInt8) :=
  calls.filterMap fun
    | .recv (.data bytes) => some bytes
    | _ => none

/-- The bytes written, call by call, with the results. -/
def writes (calls : List Call) : List (List UInt8 × EspErr) :=
  calls.filterMap fun
    | .otaWrite data result => some (data, result)
    | _ => none

/-- A handle is closed, by `esp_ota_abort` or by `esp_ota_end`. -/
def closes : Call → Bool
  | .otaAbort => true
  | .otaEnd _ => true
  | _ => false

def Opened (calls : List Call) : Prop := .otaBegin ESP_OK ∈ calls

instance (calls : List Call) : Decidable (Opened calls) := inferInstanceAs (Decidable (_ ∈ _))

/-- Each piece received was written, in its place, with success. -/
def Written (calls : List Call) : Prop := writes calls = (chunks calls).map fun bytes => (bytes, ESP_OK)

/-- **The upload is complete**: all bytes of the image were received and written, and the two last calls
succeeded. -/
structure Complete (contentLen : ℕ) (calls : List Call) : Prop where
  received : (chunks calls).flatten.length = contentLen
  written : Written calls
  ended : .otaEnd ESP_OK ∈ calls
  chosen : .setBootPartition ESP_OK ∈ calls

/-! ### The invariant -/

theorem chunks_concat (calls : List Call) (c : Call) : chunks (calls ++ [c]) = chunks calls ++ chunks [c] :=
  List.filterMap_append

theorem writes_concat (calls : List Call) (c : Call) : writes (calls ++ [c]) = writes calls ++ writes [c] :=
  List.filterMap_append

theorem countP_concat (calls : List Call) (c : Call) :
    (calls ++ [c]).countP closes = calls.countP closes + if closes c then 1 else 0 := by
  rw [List.countP_append, List.countP_singleton]

theorem opened_concat {calls : List Call} {c : Call} (hc : c ≠ .otaBegin ESP_OK) :
    Opened (calls ++ [c]) ↔ Opened calls := by
  unfold Opened
  rw [List.mem_append, List.mem_singleton]
  exact or_iff_left hc.symm

theorem notMem_concat {calls : List Call} {c d : Call} (h : d ∉ calls) (hc : c ≠ d) : d ∉ calls ++ [c] := by
  rw [List.mem_append, List.mem_singleton, not_or]
  exact ⟨h, hc.symm⟩

/-- The boot partition is not changed. -/
structure Unchanged (h : Handler) : Prop where
  chosen : .setBootPartition ESP_OK ∉ h.calls
  booted : h.booted = false

structure Before (h : Handler) : Prop extends Unchanged h where
  opened : ¬ Opened h.calls
  closed : h.calls.countP closes = 0
  chunks : chunks h.calls = []
  writes : writes h.calls = []

/-- The handle is open, and so many bytes were received. -/
structure Open (h : Handler) (received : ℕ) : Prop extends Unchanged h where
  opened : Opened h.calls
  closed : h.calls.countP closes = 0
  received : (Upload.chunks h.calls).flatten.length = received

/-- A handle that was opened is closed. -/
def Closed (h : Handler) : Prop := h.calls.countP closes = if Opened h.calls then 1 else 0

/-- What holds before each call, and in the end. -/
def Sound (h : Handler) : Prop :=
  match h.phase with
  | .authorizing | .suspending | .checking => Before h
  | .beginning => Before h ∧ 0 < h.contentLen
  | .receiving remaining timeouts =>
    Open h (h.contentLen - remaining) ∧ Written h.calls ∧ 0 < remaining ∧ remaining ≤ h.contentLen ∧
      timeouts ≤ 20
  | .writing remaining data =>
    Open h (h.contentLen - remaining + data.length) ∧
      (∃ before, chunks h.calls = before ++ [data] ∧
        writes h.calls = before.map fun bytes => (bytes, ESP_OK)) ∧
      0 < data.length ∧ data.length ≤ remaining ∧ remaining ≤ h.contentLen
  | .aborting reply => (∃ n, Open h n) ∧ reply ≠ .accepted
  | .ending => Open h h.contentLen ∧ Written h.calls
  | .booting =>
    Unchanged h ∧ Closed h ∧ (chunks h.calls).flatten.length = h.contentLen ∧ Written h.calls ∧
      .otaEnd ESP_OK ∈ h.calls
  | .resuming reply => Unchanged h ∧ Closed h ∧ reply ≠ .accepted
  | .finished .accepted => h.booted = true ∧ Closed h ∧ Complete h.contentLen h.calls
  | .finished _ => Unchanged h ∧ Closed h

theorem sound_new (contentLen : ℕ) : Sound { contentLen := contentLen } :=
  ⟨⟨List.not_mem_nil, rfl⟩, List.not_mem_nil, rfl, rfl, rfl⟩

theorem Before.closes {h : Handler} (hb : Before h) : Closed h := by
  unfold Closed
  rw [if_neg hb.opened, hb.closed]

theorem Before.unchanged {h : Handler} (hb : Before h) : Unchanged h := hb.toUnchanged

theorem Unchanged.makes {h : Handler} (hu : Unchanged h) {c : Call} (hc : c ≠ .setBootPartition ESP_OK) :
    Unchanged (h.makes c) := ⟨notMem_concat hu.chosen hc, hu.booted⟩

theorem Before.makes {h : Handler} (hb : Before h) (suspended : Bool) :
    Before (h.makes (.setStreamsSuspended suspended)) where
  toUnchanged := hb.unchanged.makes (by simp)
  opened := mt (opened_concat (by simp)).mp hb.opened
  closed := (countP_concat _ _).trans hb.closed
  chunks := (chunks_concat _ _).trans (by rw [hb.chunks]; rfl)
  writes := (writes_concat _ _).trans (by rw [hb.writes]; rfl)

theorem Open.makes {h : Handler} {n : ℕ} (ho : Open h n) {c : Call} (hc : c ≠ .setBootPartition ESP_OK)
    (hclose : closes c = false) : Open (h.makes c) (n + (Upload.chunks [c]).flatten.length) where
  toUnchanged := ho.toUnchanged.makes hc
  opened := List.mem_append_left _ ho.opened
  closed := (countP_concat _ _).trans (by rw [ho.closed, hclose]; rfl)
  received := by
    show (Upload.chunks (h.calls ++ [c])).flatten.length = _
    rw [chunks_concat, List.flatten_append, List.length_append, ho.received]

theorem Open.closes {h : Handler} {n : ℕ} (ho : Open h n) {c : Call} (hclose : closes c = true) :
    Closed (h.makes c) := by
  have hopened : Opened (h.makes c).calls := List.mem_append_left _ ho.opened
  unfold Closed
  rw [if_pos hopened]
  exact (countP_concat _ _).trans (by rw [ho.closed, hclose]; rfl)

/-- Other calls do not change whether the handle is closed. -/
theorem Closed.makes {h : Handler} (hc : Closed h) {c : Call} (hopen : c ≠ .otaBegin ESP_OK)
    (hclose : closes c = false) : Closed (h.makes c) := by
  have hcount : (h.makes c).calls.countP closes = h.calls.countP closes :=
    (countP_concat _ _).trans (by rw [hclose]; rfl)
  have hopened : Opened (h.makes c).calls ↔ Opened h.calls := opened_concat hopen
  unfold Closed at hc ⊢
  rw [hcount, hc]
  by_cases h' : Opened h.calls
  · rw [if_pos h', if_pos (hopened.mpr h')]
  · rw [if_neg h', if_neg (mt hopened.mp h')]

theorem failure_ne (e : EspErr) : failure e ≠ .accepted := by
  unfold failure
  exact fun h => nomatch h

theorem Before.refuse {h : Handler} (hb : Before h) {reply : Reply} (hreply : reply ≠ .accepted) :
    Sound (h.goes (.resuming reply)) := ⟨⟨hb.chosen, hb.booted⟩, hb.closes, hreply⟩

theorem sound_check {h : Handler} (hb : Before h) (size : Option ℕ) : Sound (h.goes (h.check size)) := by
  unfold Handler.check
  by_cases hempty : h.contentLen = 0
  · rw [if_pos hempty]
    exact hb.refuse (by simp)
  · rw [if_neg hempty]
    rcases size with _ | size
    · exact hb.refuse (by simp)
    · dsimp only
      split_ifs
      · exact hb.refuse (by simp)
      · exact ⟨⟨⟨hb.chosen, hb.booted⟩, hb.opened, hb.closed, hb.chunks, hb.writes⟩, by
          show 0 < h.contentLen
          omega⟩

theorem sound_begun {h : Handler} (hb : Before h) (hlen : 0 < h.contentLen) (result : EspErr) :
    Sound ((h.makes (.otaBegin result)).goes
      (if result ≠ ESP_OK then .resuming (failure result) else .receiving h.contentLen 0)) := by
  have hchosen := (hb.unchanged.makes (c := .otaBegin result) (by simp)).chosen
  have hcount : (h.calls ++ [Call.otaBegin result]).countP closes = 0 := (countP_concat _ _).trans hb.closed
  by_cases hresult : result = ESP_OK
  · subst hresult
    rw [if_neg (not_not.mpr rfl)]
    have hchunks : chunks (h.calls ++ [.otaBegin ESP_OK]) = [] := by
      rw [chunks_concat, hb.chunks]
      rfl
    have hwrites : writes (h.calls ++ [.otaBegin ESP_OK]) = [] := by
      rw [writes_concat, hb.writes]
      rfl
    refine ⟨⟨⟨hchosen, hb.booted⟩, ?_, hcount, ?_⟩, ?_, hlen, le_refl _, Nat.zero_le _⟩
    · exact List.mem_append_right _ (List.mem_singleton_self _)
    · show (chunks (h.calls ++ [.otaBegin ESP_OK])).flatten.length = h.contentLen - h.contentLen
      rw [hchunks, Nat.sub_self]
      rfl
    · show writes (h.calls ++ [.otaBegin ESP_OK]) = (chunks (h.calls ++ [.otaBegin ESP_OK])).map _
      rw [hchunks, hwrites]
      rfl
  · rw [if_pos hresult]
    have hne : Call.otaBegin result ≠ .otaBegin ESP_OK := fun heq => hresult (Call.otaBegin.inj heq)
    refine ⟨⟨hchosen, hb.booted⟩, ?_, failure_ne result⟩
    exact Closed.makes hb.closes hne rfl

/-- What is received is written next; after twenty timeouts in a row, or an error, the handler gives up. -/
theorem sound_receive {h : Handler} {remaining timeouts : ℕ} (ho : Open h (h.contentLen - remaining))
    (hw : Written h.calls) (h0 : 0 < remaining) (hle : remaining ≤ h.contentLen) {r : Received}
    {phase : Phase} (hr : Handler.receive remaining timeouts r = some phase) :
    Sound ((h.makes (.recv r)).goes phase) := by
  unfold Handler.receive at hr
  rcases r with bytes | _ | _
  · dsimp only at hr
    split_ifs at hr with hsize
    cases hr
    have hmakes := ho.makes (c := .recv (.data bytes)) (by simp) rfl
    have hcount : (chunks [.recv (.data bytes)]).flatten.length = bytes.length := by
      show ([bytes].flatten).length = _
      rw [List.flatten_singleton]
    rw [hcount] at hmakes
    refine ⟨⟨⟨hmakes.chosen, hmakes.booted⟩, hmakes.opened, hmakes.closed, hmakes.received⟩, ?_, hsize.1,
      hsize.2.trans (min_le_right _ _), hle⟩
    exact ⟨chunks h.calls, chunks_concat _ _, (writes_concat _ _).trans ((List.append_nil _).trans hw)⟩
  · dsimp only at hr
    have hmakes := ho.makes (c := .recv .timeout) (by simp) rfl
    split_ifs at hr with hfew
    · cases hr
      refine ⟨⟨⟨hmakes.chosen, hmakes.booted⟩, hmakes.opened, hmakes.closed, hmakes.received⟩, ?_, h0, hle,
        by omega⟩
      show writes (h.calls ++ [Call.recv .timeout]) = (chunks (h.calls ++ [Call.recv .timeout])).map _
      rw [writes_concat, chunks_concat]
      exact (List.append_nil _).trans (hw.trans (congrArg _ (List.append_nil _).symm))
    · cases hr
      exact ⟨⟨_, ⟨⟨hmakes.chosen, hmakes.booted⟩, hmakes.opened, hmakes.closed, hmakes.received⟩⟩, by simp⟩
  · cases hr
    have hmakes := ho.makes (c := .recv .failed) (by simp) rfl
    exact ⟨⟨_, ⟨⟨hmakes.chosen, hmakes.booted⟩, hmakes.opened, hmakes.closed, hmakes.received⟩⟩, by simp⟩

theorem sound_wrote {h : Handler} {remaining : ℕ} {data : List UInt8}
    (ho : Open h (h.contentLen - remaining + data.length)) {before : List (List UInt8)}
    (hchunks : chunks h.calls = before ++ [data])
    (hwrites : writes h.calls = before.map fun bytes => (bytes, ESP_OK)) (h0 : 0 < data.length)
    (hdata : data.length ≤ remaining) (hle : remaining ≤ h.contentLen) (result : EspErr) :
    Sound ((h.makes (.otaWrite data result)).goes (Handler.wrote remaining data result)) := by
  have hmakes := ho.makes (c := .otaWrite data result) (by simp) rfl
  rw [show (chunks [Call.otaWrite data result]).flatten.length = 0 from rfl, add_zero] at hmakes
  unfold Handler.wrote
  by_cases hresult : result = ESP_OK
  · subst hresult
    rw [if_neg (not_not.mpr rfl)]
    have hchunks' : chunks (h.calls ++ [Call.otaWrite data ESP_OK]) = before ++ [data] := by
      rw [chunks_concat, hchunks]
      exact List.append_nil _
    have hwritten : Written (h.calls ++ [Call.otaWrite data ESP_OK]) := by
      unfold Written
      rw [hchunks', writes_concat, hwrites, List.map_append]
      rfl
    have hreceived := hmakes.received
    split_ifs with hmore
    · refine ⟨⟨⟨hmakes.chosen, hmakes.booted⟩, hmakes.opened, hmakes.closed, hreceived.trans ?_⟩, hwritten,
        hmore, ?_, Nat.zero_le _⟩
      · show h.contentLen - remaining + data.length = h.contentLen - (remaining - data.length)
        omega
      · show remaining - data.length ≤ h.contentLen
        omega
    · refine ⟨⟨⟨hmakes.chosen, hmakes.booted⟩, hmakes.opened, hmakes.closed, hreceived.trans ?_⟩, hwritten⟩
      show h.contentLen - remaining + data.length = h.contentLen
      omega
  · rw [if_pos hresult]
    exact ⟨⟨_, ⟨⟨hmakes.chosen, hmakes.booted⟩, hmakes.opened, hmakes.closed, hmakes.received⟩⟩,
      failure_ne result⟩

theorem sound_ended {h : Handler} (ho : Open h h.contentLen) (hw : Written h.calls) (result : EspErr) :
    Sound ((h.makes (.otaEnd result)).goes
      (if result = ESP_OK then .booting else .resuming (failure result))) := by
  have hunchanged := ho.toUnchanged.makes (c := .otaEnd result) (by simp)
  have hclosed : Closed (h.makes (.otaEnd result)) := ho.closes rfl
  split_ifs with hresult
  · subst hresult
    have hchunks : chunks (h.calls ++ [Call.otaEnd ESP_OK]) = chunks h.calls :=
      (chunks_concat _ _).trans (List.append_nil _)
    have hwrites : writes (h.calls ++ [Call.otaEnd ESP_OK]) = writes h.calls :=
      (writes_concat _ _).trans (List.append_nil _)
    refine ⟨⟨hunchanged.chosen, hunchanged.booted⟩, hclosed, ?_, ?_, List.mem_append_right _
      (List.mem_singleton_self _)⟩
    · exact (congrArg (fun c : List (List UInt8) => c.flatten.length) hchunks).trans ho.received
    · show writes (h.calls ++ [Call.otaEnd ESP_OK]) = (chunks (h.calls ++ [Call.otaEnd ESP_OK])).map _
      rw [hchunks, hwrites]
      exact hw
  · exact ⟨⟨hunchanged.chosen, hunchanged.booted⟩, hclosed, failure_ne result⟩

theorem sound_booted {h : Handler} (hu : Unchanged h) (hc : Closed h)
    (hlength : (chunks h.calls).flatten.length = h.contentLen) (hw : Written h.calls)
    (hend : .otaEnd ESP_OK ∈ h.calls) (result : EspErr) :
    Sound (if result = ESP_OK then
        { h.makes (.setBootPartition result) with booted := true }.goes (.finished .accepted)
      else (h.makes (.setBootPartition result)).goes (.resuming (failure result))) := by
  have hclosed : Closed (h.makes (.setBootPartition result)) := hc.makes (by simp) rfl
  split_ifs with hresult
  · subst hresult
    have hchunks : chunks (h.calls ++ [Call.setBootPartition ESP_OK]) = chunks h.calls :=
      (chunks_concat _ _).trans (List.append_nil _)
    have hwrites : writes (h.calls ++ [Call.setBootPartition ESP_OK]) = writes h.calls :=
      (writes_concat _ _).trans (List.append_nil _)
    refine ⟨rfl, hclosed, ?_, ?_, List.mem_append_left _ hend, List.mem_append_right _
      (List.mem_singleton_self _)⟩
    · exact (congrArg (fun c : List (List UInt8) => c.flatten.length) hchunks).trans hlength
    · show writes (h.calls ++ [Call.setBootPartition ESP_OK]) =
        (chunks (h.calls ++ [Call.setBootPartition ESP_OK])).map _
      rw [hchunks, hwrites]
      exact hw
  · have hunchanged := hu.makes (c := .setBootPartition result)
      fun heq => hresult (Call.setBootPartition.inj heq)
    exact ⟨⟨hunchanged.chosen, hunchanged.booted⟩, hclosed, failure_ne result⟩

theorem sound_finished {h : Handler} (hu : Unchanged h) (hc : Closed h) {reply : Reply}
    (hreply : reply ≠ .accepted) : Sound (h.goes (.finished reply)) := by
  cases reply with
  | accepted => exact absurd rfl hreply
  | unauthorized => exact ⟨⟨hu.chosen, hu.booted⟩, hc⟩
  | error status message => exact ⟨⟨hu.chosen, hu.booted⟩, hc⟩

/-- **Every call keeps the invariant.** -/
theorem Sound.step {h h' : Handler} {i : Input} (hs : Sound h) (hstep : h.step i = some h') : Sound h' := by
  unfold Handler.step at hstep
  unfold Sound at hs
  split at hstep
  · next hphase =>
    rw [hphase] at hs
    cases hstep
    exact sound_finished hs.unchanged hs.closes (by simp)
  · next hphase =>
    rw [hphase] at hs
    cases hstep
    exact ⟨⟨hs.chosen, hs.booted⟩, hs.opened, hs.closed, hs.chunks, hs.writes⟩
  · next hphase =>
    rw [hphase] at hs
    cases hstep
    have hmakes := hs.makes true
    exact ⟨⟨hmakes.chosen, hmakes.booted⟩, hmakes.opened, hmakes.closed, hmakes.chunks, hmakes.writes⟩
  · next size hphase =>
    rw [hphase] at hs
    cases hstep
    exact sound_check hs size
  · next result hphase =>
    rw [hphase] at hs
    cases hstep
    exact sound_begun hs.1 hs.2 result
  · next remaining timeouts r hphase =>
    rw [hphase] at hs
    obtain ⟨phase, hr, rfl⟩ := Option.map_eq_some_iff.mp hstep
    obtain ⟨ho, hw, h0, hle, _⟩ := hs
    exact sound_receive ho hw h0 hle hr
  · next remaining data result hphase =>
    rw [hphase] at hs
    cases hstep
    obtain ⟨ho, ⟨before, hchunks, hwrites⟩, h0, hdata, hle⟩ := hs
    exact sound_wrote ho hchunks hwrites h0 hdata hle result
  · next reply hphase =>
    rw [hphase] at hs
    cases hstep
    obtain ⟨⟨n, ho⟩, hreply⟩ := hs
    have hunchanged := ho.toUnchanged.makes (c := .otaAbort) (by simp)
    exact ⟨⟨hunchanged.chosen, hunchanged.booted⟩, ho.closes rfl, hreply⟩
  · next result hphase =>
    rw [hphase] at hs
    cases hstep
    exact sound_ended hs.1 hs.2 result
  · next result hphase =>
    rw [hphase] at hs
    cases hstep
    obtain ⟨hu, hc, hlength, hw, hend⟩ := hs
    exact sound_booted hu hc hlength hw hend result
  · next reply hphase =>
    rw [hphase] at hs
    cases hstep
    obtain ⟨hu, hc, hreply⟩ := hs
    exact sound_finished (hu.makes (by simp)) (hc.makes (by simp) rfl) hreply
  · cases hstep

/-! ### The loop ends -/

/-- How many calls may still be made. -/
def budget (h : Handler) : ℕ :=
  match h.phase with
  | .authorizing => 22 * h.contentLen + 30
  | .suspending => 22 * h.contentLen + 29
  | .checking => 22 * h.contentLen + 28
  | .beginning => 22 * h.contentLen + 27
  | .receiving remaining timeouts => 22 * remaining + 26 - timeouts
  | .writing remaining _ => 22 * remaining + 5
  | .aborting _ => 2
  | .ending => 4
  | .booting => 3
  | .resuming _ => 1
  | .finished _ => 0

theorem contentLen_step {h h' : Handler} {i : Input} (hstep : h.step i = some h') :
    h'.contentLen = h.contentLen := by
  unfold Handler.step at hstep
  split at hstep
  case h_6 =>
    obtain ⟨phase, _, rfl⟩ := Option.map_eq_some_iff.mp hstep
    rfl
  case h_10 =>
    dsimp only at hstep
    split_ifs at hstep <;> cases hstep <;> rfl
  all_goals cases hstep <;> rfl

theorem budget_check (h : Handler) (size : Option ℕ) :
    budget (h.goes (h.check size)) ≤ 22 * h.contentLen + 27 := by
  unfold Handler.check
  split_ifs with hempty
  · show 1 ≤ _
    omega
  · rcases size with _ | size
    · show 1 ≤ _
      omega
    · dsimp only
      split_ifs
      · show 1 ≤ _
        omega
      · exact le_refl _

theorem budget_receive {h : Handler} {remaining timeouts : ℕ} (h0 : 0 < remaining) (hfew : timeouts ≤ 20)
    {r : Received} {phase : Phase} (hr : Handler.receive remaining timeouts r = some phase) :
    budget (h.goes phase) < 22 * remaining + 26 - timeouts := by
  unfold Handler.receive at hr
  rcases r with bytes | _ | _
  · dsimp only at hr
    split_ifs at hr
    cases hr
    show 22 * remaining + 5 < _
    omega
  · dsimp only at hr
    split_ifs at hr
    · cases hr
      show 22 * remaining + 26 - (timeouts + 1) < _
      omega
    · cases hr
      show 2 < _
      omega
  · cases hr
    show 2 < _
    omega

theorem budget_wrote {h : Handler} {remaining : ℕ} {data : List UInt8} (h0 : 0 < data.length)
    (hle : data.length ≤ remaining) (result : EspErr) :
    budget (h.goes (Handler.wrote remaining data result)) < 22 * remaining + 5 := by
  unfold Handler.wrote
  split_ifs
  · show 2 < _
    omega
  · show 22 * (remaining - data.length) + 26 - 0 < _
    omega
  · show 4 < _
    omega

/-- **Every call uses up some of the budget.** -/
theorem budget_step {h h' : Handler} {i : Input} (hs : Sound h) (hstep : h.step i = some h') :
    budget h' < budget h := by
  unfold Handler.step at hstep
  unfold Sound at hs
  split at hstep
  · next hphase =>
    cases hstep
    rw [budget, budget, hphase]
    exact Nat.succ_pos _
  · next hphase =>
    cases hstep
    rw [budget, budget, hphase]
    exact Nat.lt_succ_self _
  · next hphase =>
    cases hstep
    rw [budget, budget, hphase]
    exact Nat.lt_succ_self _
  · next size hphase =>
    cases hstep
    have hbound := budget_check h size
    rw [budget.eq_def h, hphase]
    exact Nat.lt_succ_of_le hbound
  · next result hphase =>
    cases hstep
    rw [budget.eq_def h, hphase]
    split_ifs
    · show 1 < 22 * h.contentLen + 27
      omega
    · show 22 * h.contentLen + 26 - 0 < 22 * h.contentLen + 27
      omega
  · next remaining timeouts r hphase =>
    rw [hphase] at hs
    obtain ⟨phase, hr, rfl⟩ := Option.map_eq_some_iff.mp hstep
    obtain ⟨_, _, h0, _, hfew⟩ := hs
    rw [budget.eq_def h, hphase]
    exact budget_receive h0 hfew hr
  · next remaining data result hphase =>
    rw [hphase] at hs
    cases hstep
    obtain ⟨_, _, h0, hdata, _⟩ := hs
    rw [budget.eq_def h, hphase]
    exact budget_wrote h0 hdata result
  · next reply hphase =>
    cases hstep
    rw [budget.eq_def h, hphase]
    exact Nat.lt_succ_self _
  · next result hphase =>
    cases hstep
    rw [budget.eq_def h, hphase]
    split_ifs
    · exact Nat.lt_succ_self _
    · show 1 < 4
      omega
  · next result hphase =>
    cases hstep
    rw [budget.eq_def h, hphase]
    split_ifs
    · exact Nat.succ_pos _
    · show 1 < 3
      omega
  · next reply hphase =>
    cases hstep
    rw [budget.eq_def h, hphase]
    exact Nat.succ_pos _
  · cases hstep

theorem sound_run {is : List Input} {h h' : Handler} (hs : Sound h) (hrun : run Handler.step h is = some h') :
    Sound h' ∧ h'.contentLen = h.contentLen ∧ is.length + budget h' ≤ budget h := by
  induction is generalizing h with
  | nil =>
    cases hrun
    exact ⟨hs, rfl, by rw [List.length_nil, zero_add]⟩
  | cons i is ih =>
    obtain ⟨t, ht, hrun⟩ := run_cons_eq_some.mp hrun
    obtain ⟨h1, h2, h3⟩ := ih (hs.step ht) hrun
    have hless := budget_step hs ht
    refine ⟨h1, h2.trans (contentLen_step ht), ?_⟩
    rw [List.length_cons]
    omega

theorem run_timeouts {h : Handler} {remaining timeouts k : ℕ} (hphase : h.phase = .receiving remaining timeouts)
    (hk : timeouts + k ≤ 20) : ∃ h', run Handler.step h (List.replicate k (.recv .timeout)) = some h' ∧
      h'.phase = .receiving remaining (timeouts + k) := by
  induction k generalizing h timeouts with
  | zero => exact ⟨h, rfl, hphase⟩
  | succ k ih =>
    have hstep : h.step (.recv .timeout) =
        some ((h.makes (.recv .timeout)).goes (.receiving remaining (timeouts + 1))) := by
      unfold Handler.step
      rw [hphase]
      dsimp only
      unfold Handler.receive
      dsimp only
      rw [if_pos (by omega)]
      rfl
    have hnext : ((h.makes (.recv .timeout)).goes (.receiving remaining (timeouts + 1))).phase =
        .receiving remaining (timeouts + 1) := rfl
    obtain ⟨h', hrun, hphase'⟩ := ih hnext (by omega)
    refine ⟨h', ?_, by rw [hphase']; congr 1; omega⟩
    rw [List.replicate_succ]
    exact run_cons_eq_some.mpr ⟨_, hstep, hrun⟩

/-- What the next call of the handler may answer. -/
def Possible : Phase → Input → Prop
  | .authorizing, .authorize _ => True
  | .suspending, .proceed => True
  | .checking, .partition _ => True
  | .beginning, .begun _ => True
  | .receiving remaining _, .recv (.data bytes) =>
    0 < bytes.length ∧ bytes.length ≤ min kBufferSize remaining
  | .receiving _ _, .recv _ => True
  | .writing _ _, .written _ => True
  | .aborting _, .proceed => True
  | .ending, .ended _ => True
  | .booting, .booted _ => True
  | .resuming _, .proceed => True
  | _, _ => False

/-- The handler takes whatever its call may answer. -/
theorem step_isSome {h : Handler} {i : Input} (hi : Possible h.phase i) : (h.step i).isSome := by
  unfold Handler.step
  unfold Possible at hi
  split at hi
  · next granted hphase =>
    rw [hphase]
    rcases granted with _ | _ <;> rfl
  · next hphase => rw [hphase]; rfl
  · next hphase => rw [hphase]; rfl
  · next hphase => rw [hphase]; rfl
  · next remaining timeouts bytes hphase =>
    rw [hphase]
    dsimp only
    unfold Handler.receive
    dsimp only
    rw [if_pos hi]
    rfl
  · next remaining timeouts r hnot hphase =>
    rw [hphase]
    rcases r with bytes | _ | _
    · exact absurd rfl (hnot bytes)
    · dsimp only
      unfold Handler.receive
      dsimp only
      split_ifs <;> rfl
    · rfl
  · next hphase => rw [hphase]; rfl
  · next hphase => rw [hphase]; rfl
  · next hphase => rw [hphase]; rfl
  · next hphase => rw [hphase]; rfl
  · next hphase => rw [hphase]; rfl
  · exact hi.elim

theorem Sound.booted_iff {h : Handler} (hs : Sound h) :
    h.booted = true ↔ Complete h.contentLen h.calls := by
  have hnot : Unchanged h → (h.booted = true ↔ Complete h.contentLen h.calls) := by
    rintro ⟨hchosen, hbooted⟩
    exact iff_of_false (by rw [hbooted]; exact Bool.false_ne_true) fun hc => hchosen hc.chosen
  unfold Sound at hs
  split at hs
  · exact hnot hs.unchanged
  · exact hnot hs.unchanged
  · exact hnot hs.unchanged
  · exact hnot hs.1.unchanged
  · exact hnot hs.1.toUnchanged
  · exact hnot hs.1.toUnchanged
  · obtain ⟨⟨_, ho⟩, _⟩ := hs
    exact hnot ho.toUnchanged
  · exact hnot hs.1.toUnchanged
  · exact hnot hs.1
  · exact hnot hs.1
  · exact iff_of_true hs.1 hs.2.2
  · exact hnot hs.1

theorem Sound.closed {h : Handler} (hs : Sound h) {reply : Reply} (hphase : h.phase = .finished reply) :
    Closed h ∧ (reply = .accepted ↔ h.booted = true) := by
  unfold Sound at hs
  rw [hphase] at hs
  cases reply with
  | accepted => exact ⟨hs.2.1, iff_of_true rfl hs.1⟩
  | unauthorized => exact ⟨hs.2, iff_of_false (by simp) (by rw [hs.1.booted]; exact Bool.false_ne_true)⟩
  | error => exact ⟨hs.2, iff_of_false (by simp) (by rw [hs.1.booted]; exact Bool.false_ne_true)⟩

theorem run_timeouts_abort {h : Handler} {remaining : ℕ} (hphase : h.phase = .receiving remaining 0) :
    ∃ h', run Handler.step h (List.replicate 21 (.recv .timeout)) = some h' ∧
      h'.phase = .aborting (.error 500 (.text "Upload interrupted")) := by
  obtain ⟨t, ht, htphase⟩ := run_timeouts hphase (k := 20) (by omega)
  refine ⟨(t.makes (.recv .timeout)).goes (.aborting (.error 500 (.text "Upload interrupted"))), ?_, rfl⟩
  rw [List.replicate_succ', run_append, ht]
  refine run_cons_eq_some.mpr ⟨_, ?_, rfl⟩
  unfold Handler.step
  rw [htphase]
  rfl

/-- **A firmware upload is all or nothing.** In every state a handler reaches, the boot partition is changed
exactly if the upload is complete; in the end a handle that was opened is closed once, and only an upload
that is accepted has changed it. The handler always ends: it takes whatever is answered, for a bounded
number of calls, and tolerates twenty timeouts in a row. -/
theorem upload_all_or_nothing {contentLen : ℕ} {is : List Input} {h : Handler}
    (hrun : run Handler.step { contentLen := contentLen } is = some h) :
    (h.booted = true ↔ Complete contentLen h.calls) ∧
      (∀ reply, h.phase = .finished reply → Closed h ∧ (reply = .accepted ↔ h.booted = true)) ∧
      is.length ≤ 22 * contentLen + 30 ∧ (∀ i, Possible h.phase i → (h.step i).isSome) ∧
      ∀ remaining, h.phase = .receiving remaining 0 →
        (∀ k ≤ 20, ∃ t, run Handler.step h (List.replicate k (.recv .timeout)) = some t ∧
          t.phase = .receiving remaining k) ∧
        ∃ t, run Handler.step h (List.replicate 21 (.recv .timeout)) = some t ∧
          t.phase = .aborting (.error 500 (.text "Upload interrupted")) := by
  obtain ⟨hs, hlen, hbudget⟩ := sound_run (sound_new contentLen) hrun
  refine ⟨?_, fun reply hphase => hs.closed hphase, ?_, fun i hi => step_isSome hi, fun remaining hphase => ?_⟩
  · rw [hs.booted_iff, hlen]
  · have hstart : budget { contentLen := contentLen } = 22 * contentLen + 30 := rfl
    omega
  · refine ⟨fun k hk => ?_, run_timeouts_abort hphase⟩
    obtain ⟨t, ht, htphase⟩ := run_timeouts hphase (k := k) (by omega)
    exact ⟨t, ht, by rw [htphase, zero_add]⟩

/-- An image that comes in two pieces, with timeouts between them. -/
def twoPieces : List Input :=
  [.authorize true, .proceed, .partition (some 4096), .begun ESP_OK, .recv (.data [1, 2]), .written ESP_OK,
    .recv .timeout, .recv .timeout, .recv (.data [3]), .written ESP_OK, .ended ESP_OK, .booted ESP_OK]

/-- The image is written and chosen. -/
theorem upload_all_or_nothing_pieces : ∃ h,
    run Handler.step { contentLen := 3 } twoPieces = some h ∧ (h.booted = true ↔ Complete 3 h.calls) ∧
      h.booted = true ∧ h.phase = .finished .accepted ∧ Closed h := by
  have hfinal : (run Handler.step { contentLen := 3 } twoPieces).map (fun h => (h.booted, h.phase)) =
      some (true, .finished .accepted) := by
    decide +kernel
  obtain ⟨h, hrun, hlast⟩ := Option.map_eq_some_iff.mp hfinal
  have hresult := upload_all_or_nothing hrun
  obtain ⟨hbooted, hphase⟩ := Prod.mk.inj hlast
  exact ⟨h, hrun, hresult.1, hbooted, hphase, (hresult.2.1 _ hphase).1⟩

end GpsBase.Web.Upload
