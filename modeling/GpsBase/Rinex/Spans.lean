import GpsBase.Rinex.FileRecords
import GpsBase.Rinex.Grid
import GpsBase.Rinex.Splices

/-! # What a file spans

The records of the files of any run: sessions started and stopped, any bytes fed, times of any kind. A
record carries what rotation promises and no more: no epoch of a file is found to be an hour older than
the first when it is written. Nothing keeps an epoch from being earlier than the first. The files of a
run hold such records (`recorded_run`), and where the times are numbers the promise is one about seconds
(`lt_hour`). -/

namespace GpsBase.Rinex.Spans

open GpsBase.Lib.Binary64 GpsBase.Lib.Binary64.Float64 GpsBase.Lib.CText GpsBase.Rinex.SatId
open GpsBase.Rinex.Logger GpsBase.Rinex.Logger.RinexLogger GpsBase.Rinex.FileRecords
open GpsBase.Rinex.Parts GpsBase.Rinex.Times GpsBase.Lib.Calendar

/-! ### Records -/

/-- An epoch written: its week, its time of week as `process_message` rounds it, and its satellites. -/
structure Entry where
  week : ℤ
  tow : Float64
  sats : List (SatObs × List UInt8)
  week_pos : 0 < week
  week_lt : week < 2 ^ 31
  rounded : ∃ t, tow = roundedTow t

def Entry.written (e : Entry) : Written := ⟨e.week, e.tow, e.sats⟩

/-- A file that began with `first` is not too old for `e`. -/
def Young (first e : Entry) : Prop := tooOld first.written e.written = false

/-! ### Steps -/

theorem files_processMessage {c : Clib} {l : RinexLogger} {R : List (FileRecord Young)}
    (h : Files Entry.written c l R) : ∃ R' : List (FileRecord Young),
      Files Entry.written c (l.processMessage c) R' := by
  rw [processMessage_eq]
  rcases hheader : headerTime c l.msg with _ | ⟨week, tow⟩
  · exact ⟨R, h⟩
  · dsimp only
    split_ifs
    · exact ⟨R, h⟩
    · obtain ⟨hpos, hlt⟩ := week_headerTime hheader
      rcases processBody_cases c l week (roundedTow tow) _ with heq | ⟨sats, hne, hlegal, heq⟩
      · rw [heq]
        exact ⟨R, h⟩
      · rw [heq]
        obtain ⟨R', hR', -⟩ := h.logEpoch (fun sats => ⟨week, roundedTow tow, sats, hpos, hlt, tow, rfl⟩)
          (fun _ => rfl) (fun _ _ hyoung => hyoung) hne hlegal
        exact ⟨R', hR'⟩

theorem files_feed {c : Clib} (data : List UInt8) {l : RinexLogger} {R : List (FileRecord Young)}
    (h : Files Entry.written c l R) :
    ∃ R' : List (FileRecord Young), Files Entry.written c (data.foldl (feedByte c) l) R' := by
  induction data generalizing l R with
  | nil => exact ⟨R, h⟩
  | cons b data ih =>
    -- the framer does not matter to the files
    have hframer : ∀ {l : RinexLogger} {R : List (FileRecord Young)} (inMsg : Bool) (msg : List UInt8),
        Files Entry.written c l R → Files Entry.written c { l with inMsg := inMsg, msg := msg } R :=
      fun _ _ h => h.congr rfl rfl rfl rfl rfl rfl
    have hbyte : ∃ R' : List (FileRecord Young), Files Entry.written c (feedByte c l b) R' := by
      rw [Splices.feedByte_eq]
      rcases Splices.handed l b with _ | msg
      · exact ⟨R, hframer _ _ h⟩
      · obtain ⟨R', hR'⟩ := files_processMessage (hframer l.inMsg msg h)
        exact ⟨R', hframer _ _ hR'⟩
    obtain ⟨R', hR'⟩ := hbyte
    exact ih hR'

/-! ### Runs -/

inductive Call
  | start (lat lon height : Float64) (antModel antRadome : List UInt8) (antDeltaH : Float64)
  | stop
  | feed (data : List UInt8)

def call (c : Clib) (l : RinexLogger) : Call → RinexLogger
  | .start lat lon height antModel antRadome antDeltaH =>
    l.start c lat lon height antModel antRadome antDeltaH
  | .stop => l.stop c
  | .feed data => l.feed c data

/-- What holds between calls: only an active logger has a file open. -/
structure Kept (c : Clib) (l : RinexLogger) (R : List (FileRecord Young)) : Prop where
  inactive : l.active = false → l.file = none
  files : Files Entry.written c l R

theorem Kept.closed {c : Clib} {l : RinexLogger} {R : List (FileRecord Young)} (h : Kept c l R)
    (hactive : l.active = false) : List.Forall₂ (HoldsRecord Entry.written c) l.closed R := by
  have hfiles := h.files.close
  rw [closeFile_none c (h.inactive hactive)] at hfiles
  exact hfiles.2

theorem Kept.start {c : Clib} {l : RinexLogger} {R : List (FileRecord Young)} (h : Kept c l R)
    (lat lon height : Float64) (antModel antRadome : List UInt8) (antDeltaH : Float64) :
    Kept c (l.start c lat lon height antModel antRadome antDeltaH) R := by
  unfold RinexLogger.start
  rcases hactive : l.active with _ | _
  · rw [if_neg Bool.false_ne_true]
    exact ⟨fun _ => h.inactive hactive, .closed (h.inactive hactive) (h.closed hactive)⟩
  · rw [if_pos rfl]
    exact h

theorem Kept.stop {c : Clib} {l : RinexLogger} {R : List (FileRecord Young)} (h : Kept c l R) :
    Kept c (l.stop c) R := by
  unfold RinexLogger.stop
  rcases hactive : l.active with _ | _
  · rw [Bool.not_false, if_pos rfl]
    exact h
  · have hfiles : Files Entry.written c { l with active := false } R :=
      h.files.congr rfl rfl rfl rfl rfl rfl
    obtain ⟨hfile, hclosed⟩ := hfiles.close
    rw [Bool.not_true, if_neg Bool.false_ne_true]
    exact ⟨fun _ => hfile, .closed hfile hclosed⟩

theorem Kept.feed {c : Clib} {l : RinexLogger} {R : List (FileRecord Young)} (h : Kept c l R)
    (data : List UInt8) : ∃ R', Kept c (l.feed c data) R' := by
  have hactive' := active_feed c data l
  unfold RinexLogger.feed at hactive' ⊢
  rcases hactive : l.active with _ | _
  · rw [Bool.not_false, if_pos rfl]
    exact ⟨R, h⟩
  · rw [hactive, Bool.not_true, if_neg Bool.false_ne_true] at hactive'
    rw [Bool.not_true, if_neg Bool.false_ne_true]
    obtain ⟨R', hR'⟩ := files_feed data h.files
    refine ⟨R', fun hoff => ?_, hR'⟩
    rw [hactive'] at hoff
    cases hoff

/-- **The files of every run hold records.** -/
theorem recorded_run (c : Clib) (opens : ℕ → Bool) (calls : List Call) :
    ∃ R, Kept c (calls.foldl (call c) { opens := opens }) R := by
  have hstart : ∃ R, Kept c { opens := opens } R := ⟨[], fun _ => rfl, .closed rfl .nil⟩
  refine List.foldlRecOn (motive := fun l => ∃ R, Kept c l R) calls (call c) hstart ?_
  rintro l ⟨R, hR⟩ i -
  cases i with
  | start lat lon height antModel antRadome antDeltaH =>
    exact ⟨R, hR.start lat lon height antModel antRadome antDeltaH⟩
  | stop => exact ⟨R, hR.stop⟩
  | feed data => exact hR.feed data

/-! ### Seconds -/

/-- The time of an epoch in seconds since 1970, where its time of week is a number of seconds that a
double counts one by one. -/
def Entry.time? (e : Entry) : Option ℤ :=
  match e.tow with
  | .fin s m =>
    if m < (2 ^ 53 : ℕ) then some (315964800 + 604800 * e.week + (fin s m).toInt 64 fun _ => 0) else none
  | _ => none

theorem isInt_roundedTow {tow : Float64} {s : Bool} {m : ℚ≥0} (h : roundedTow tow = fin s m)
    (hm : m < 2 ^ 53) : ∃ n : ℤ, n.natAbs < 2 ^ 53 ∧ IsInt (fin s m) n := by
  unfold roundedTow at h
  generalize (tow.div (ofInt kEpochInterval)).add (ofRat false (1 / 2)) = x at h
  rw [Grid.ofInt_thirty] at h
  rcases x with b | b | ⟨b, q⟩
  · cases h
  · cases h
  · obtain ⟨t, ht, hsigned⟩ := isInt_floor b q
    rw [ht] at h
    have hprod : ofRat (t ^^ false) ((⌊signed b q⌋ * 30 : ℤ) : ℚ) = fin s m := by
      rw [Int.cast_mul, ← hsigned, ← h]
      simp [mul, Grid.signed_thirty]
    by_cases hsmall : (⌊signed b q⌋ * 30).natAbs < 2 ^ 53
    · exact ⟨_, hsmall, hprod ▸ isInt_ofRat _ hsmall⟩
    · -- a product beyond `2 ^ 53` does not round below it
      exfalso
      generalize ⌊signed b q⌋ * 30 = k at hprod hsmall
      have habs : (2 : ℚ) ^ (53 : ℤ) ≤ |(k : ℚ)| := by
        have hk : (2 : ℤ) ^ 53 ≤ |k| := by
          rw [Int.abs_eq_natAbs]
          omega
        exact_mod_cast hk
      have hnear := le_nearest (by norm_num) habs
      unfold ofRat at hprod
      split_ifs at hprod with h0
      · rw [h0, abs_zero] at habs
        norm_num at habs
      · have hmag : (nearest |(k : ℚ)|).toNNRat = m := (Float64.fin.inj hprod).2
        have hcast : (m : ℚ) = nearest |(k : ℚ)| := by
          rw [← hmag, Rat.coe_toNNRat _ (nearest_nonneg _)]
        have hlt : (m : ℚ) < 2 ^ 53 := by exact_mod_cast hm
        rw [hcast] at hlt
        exact absurd hnear (not_le.mpr (by exact_mod_cast hlt))

theorem Entry.time?_eq {e : Entry} {t : ℤ} (h : e.time? = some t) :
    ∃ n : ℤ, n.natAbs < 2 ^ 53 ∧ IsInt e.tow n ∧ t = 315964800 + 604800 * e.week + n := by
  obtain ⟨tow, hrounded⟩ := e.rounded
  unfold Entry.time? at h
  rcases htow : e.tow with b | b | ⟨s, m⟩
  · rw [htow] at h
    cases h
  · rw [htow] at h
    cases h
  · rw [htow] at h
    dsimp only at h
    split_ifs at h with hm
    obtain ⟨n, hn, hint⟩ := isInt_roundedTow (hrounded.symm.trans htow) hm
    have hconv : (fin s m).toInt 64 (fun _ => 0) = n :=
      hint.toInt (by norm_num; omega) (by norm_num; omega) _
    rw [hconv] at h
    exact ⟨n, hn, hint, (Option.some.inj h).symm⟩

/-- **The path of a file** tells the second of its first epoch. -/
theorem path_eq (c : Clib) {r : FileRecord Young} {f : ℤ} (h : r.first.time? = some f) :
    r.path Entry.written (withGmtime c) = ascii "/sdcard/rawdata/" ++ baseName (DateTime.ofUnix f) := by
  obtain ⟨n, hn, hint, rfl⟩ := Entry.time?_eq h
  exact fileName_isInt c ⟨r.first.week_pos, r.first.week_lt⟩ hint hn

/-- **No epoch of a file is an hour after the first.** -/
theorem lt_hour {r : FileRecord Young} {e : Entry} (he : e ∈ r.entries) {t f : ℤ} (ht : e.time? = some t)
    (hf : r.first.time? = some f) (ht' : 0 ≤ t ∧ t < 2 ^ 50) (hf' : 0 ≤ f ∧ f < 2 ^ 50) :
    t < f + 3600 := by
  rcases List.mem_cons.mp he with rfl | he
  · obtain rfl := Option.some.inj (ht.symm.trans hf)
    omega
  · have hyoung : tooOld r.first.written e.written = false := r.kept e he
    obtain ⟨n, hn, hint, rfl⟩ := Entry.time?_eq ht
    obtain ⟨k, hk, hint', rfl⟩ := Entry.time?_eq hf
    have hweek := e.week_pos
    have hweek' := e.week_lt
    have hfirst := r.first.week_pos
    have hfirst' := r.first.week_lt
    have hweeks : IsInt ((ofInt (e.week - r.first.week)).mul (ofInt 604800))
        ((e.week - r.first.week) * 604800) :=
      (isInt_ofInt (by omega)).mul (isInt_ofInt (by norm_num)) (by omega)
    have htows : IsInt (e.tow.sub r.first.tow) (n - k) := hint.sub hint' (by omega)
    unfold tooOld Entry.written at hyoung
    dsimp only at hyoung
    rw [(isInt_ofInt (by decide)).le (hweeks.add htows (by omega)), decide_eq_false_iff_not] at hyoung
    unfold kSecondsPerFile at hyoung
    omega

end GpsBase.Rinex.Spans
