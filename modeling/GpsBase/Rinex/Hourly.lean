import GpsBase.Rinex.FileRecords
import GpsBase.Rinex.Grid

/-! # Hourly files

The epochs of a run of the logger whose times go up, and the files they go to. `ByHour` says what the
records of the files look like: epochs that go up, and a new file an hour after the last began; the promise
of a record is that its file spans less than an hour. A logged epoch keeps this, whether it goes into the
open file, starts a new one, or is lost because none can be opened. -/

namespace GpsBase.Rinex.Hourly

open GpsBase.Lib.Binary64 GpsBase.Lib.Binary64.Float64 GpsBase.Lib.CText GpsBase.Rinex.SatId
open GpsBase.Rinex.Logger GpsBase.Rinex.Logger.RinexLogger GpsBase.Rinex.FileRecords
open GpsBase.Rinex.Sessions GpsBase.Rinex.Epochs GpsBase.Rinex.Times GpsBase.Rinex.Grid

/-! ### Records -/

/-- An epoch written: its week, its time of week in intervals, and its satellites. -/
structure Entry where
  week : ℤ
  interval : ℕ
  sats : List (SatObs × List UInt8)
  week_pos : 0 < week
  week_lt : week < 2 ^ 31
  interval_le : interval ≤ 2 ^ 16

/-- The time of week of an epoch. -/
def Entry.tow (e : Entry) : Float64 := fin false ((30 * e.interval : ℕ) : ℚ≥0)

/-- The time of an epoch in GPS seconds. -/
def Entry.time (e : Entry) : ℤ := 604800 * e.week + 30 * e.interval

def Entry.written (e : Entry) : Written := ⟨e.week, e.tow, e.sats⟩

/-- An epoch of the hour that another one began. -/
def Within (first e : Entry) : Prop := e.time < first.time + 3600

theorem dvd_time (e : Entry) : 30 ∣ e.time := by
  unfold Entry.time
  omega

/-! ### Hours -/

theorem lt_hour {r : FileRecord Within} {e : Entry} (he : e ∈ r.entries) :
    e.time < r.first.time + 3600 := by
  rcases List.mem_cons.mp he with rfl | he
  · omega
  · exact r.kept e he

theorem tooOld_eq (first e : Entry) :
    tooOld first.written e.written = decide (first.time + 3600 ≤ e.time) :=
  elapsed_le ⟨e.week_pos, e.week_lt⟩ ⟨first.week_pos, first.week_lt⟩ e.interval_le first.interval_le

/-- Files as hourly rotation leaves them. -/
structure ByHour (R : List (FileRecord Within)) : Prop where
  sorted : (R.flatMap FileRecord.entries).Pairwise fun a b => a.time < b.time
  gaps : R.Pairwise fun r r' => r.first.time + 3600 ≤ r'.first.time

theorem byHour_nil : ByHour [] := ⟨List.Pairwise.nil, List.Pairwise.nil⟩

theorem ByHour.opened {R : List (FileRecord Within)} (h : ByHour R) {e : Entry}
    (hpast : ∀ r ∈ R, ∀ x ∈ r.entries, x.time < e.time)
    (hhour : ∀ r ∈ R, r.first.time + 3600 ≤ e.time) : ByHour (R ++ [.begun e]) := by
  refine ⟨?_, ?_⟩
  · rw [List.flatMap_append, List.pairwise_append]
    refine ⟨h.sorted, List.pairwise_singleton _ _, fun x hx y hy => ?_⟩
    obtain ⟨r, hr, hx⟩ := List.mem_flatMap.mp hx
    have hy : y = e := List.mem_singleton.mp hy
    rw [hy]
    exact hpast r hr x hx
  · rw [List.pairwise_append]
    refine ⟨h.gaps, List.pairwise_singleton _ _, fun r hr r' hr' => ?_⟩
    rw [List.mem_singleton.mp hr']
    exact hhour r hr

theorem ByHour.extend {R : List (FileRecord Within)} {r : FileRecord Within} (h : ByHour (R ++ [r]))
    {e : Entry} (hpast : ∀ r' ∈ R ++ [r], ∀ x ∈ r'.entries, x.time < e.time)
    (hhour : Within r.first e) : ByHour (R ++ [r.add e hhour]) := by
  obtain ⟨hsorted, hgaps⟩ := h
  refine ⟨?_, ?_⟩
  · have hflat : (R ++ [r.add e hhour]).flatMap FileRecord.entries =
        (R ++ [r]).flatMap FileRecord.entries ++ [e] := by
      rw [List.flatMap_append, List.flatMap_append, List.flatMap_singleton, List.flatMap_singleton,
        FileRecord.entries_add, List.append_assoc]
    rw [hflat, List.pairwise_append]
    refine ⟨hsorted, List.pairwise_singleton _ _, fun x hx y hy => ?_⟩
    obtain ⟨r', hr', hx⟩ := List.mem_flatMap.mp hx
    rw [List.mem_singleton.mp hy]
    exact hpast r' hr' x hx
  · rw [List.pairwise_append] at hgaps ⊢
    refine ⟨hgaps.1, List.pairwise_singleton _ _, fun a ha b hb => ?_⟩
    rw [List.mem_singleton.mp hb]
    exact hgaps.2.2 a ha r (List.mem_singleton.mpr rfl)

theorem ByHour.first_le {R : List (FileRecord Within)} (h : ByHour R) {r : FileRecord Within} (hr : r ∈ R) {e : Entry}
    (he : e ∈ r.entries) : r.first.time ≤ e.time := by
  have hsorted := (List.pairwise_flatMap.mp h.sorted).1 r hr
  rcases List.mem_cons.mp he with rfl | he
  · exact le_rfl
  · exact ((List.pairwise_cons.mp hsorted).1 e he).le

/-- **An hour has at most 120 epochs.** -/
theorem ByHour.length_le {R : List (FileRecord Within)} (h : ByHour R) {r : FileRecord Within} (hr : r ∈ R) :
    r.entries.length ≤ 120 := by
  have hsorted := (List.pairwise_flatMap.mp h.sorted).1 r hr
  have hnodup : (r.entries.map fun e => ((e.time - r.first.time) / 30).toNat).Nodup := by
    rw [List.Nodup, List.pairwise_map]
    refine List.Pairwise.imp_of_mem (fun {a b} ha hb hlt heq => ?_) hsorted
    have h1 := h.first_le hr ha
    have h2 := h.first_le hr hb
    have h3 := dvd_time a
    have h4 := dvd_time b
    have h5 := dvd_time r.first
    omega
  have hsub : (r.entries.map fun e => ((e.time - r.first.time) / 30).toNat) ⊆ List.range 120 := by
    intro n hn
    obtain ⟨e, he, rfl⟩ := List.mem_map.mp hn
    have h1 := h.first_le hr he
    have h2 := lt_hour he
    rw [List.mem_range]
    omega
  have hle := (List.Nodup.subperm hnodup hsub).length_le
  rwa [List.length_map, List.length_range] at hle

/-- **No two files have the same name.** -/
theorem ByHour.names (c : Clib) {R : List (FileRecord Within)} (h : ByHour R) :
    (R.map (FileRecord.path Entry.written (withGmtime c))).Nodup := by
  rw [List.Nodup, List.pairwise_map]
  refine h.gaps.imp fun {r r'} hlt heq => ?_
  have heq' := fileName_inj c ⟨r.first.week_pos, r.first.week_lt⟩ ⟨r'.first.week_pos, r'.first.week_lt⟩
    r.first.interval_le r'.first.interval_le heq
  unfold Entry.time at hlt
  omega

/-! ### Steps -/

/-- What holds of the logger between messages: the files are those of `R`, and when none is open the last
one began an hour before `now` or earlier. -/
structure Kept (c : Clib) (l : RinexLogger) (R : List (FileRecord Within)) (now : ℤ) : Prop where
  hourly : ByHour R
  past : ∀ r ∈ R, ∀ e ∈ r.entries, e.time ≤ now
  files : Files Entry.written c l R
  aged : l.file = none → ∀ r ∈ R, r.first.time + 3600 ≤ now

/-- Where no file is open for an epoch, the files began an hour before it. -/
theorem Kept.ended {c : Clib} {l : RinexLogger} {R : List (FileRecord Within)} {now : ℤ}
    (h : Kept c l R now) {e : Entry} (hnow : now < e.time) (hended : Ended Entry.written l R e.written) :
    ∀ r ∈ R, r.first.time + 3600 ≤ e.time := by
  rcases hended with hfile | ⟨old, r, rfl, hold⟩
  · exact fun r hr => (h.aged hfile r hr).trans hnow.le
  · rw [tooOld_eq, decide_eq_true_eq] at hold
    intro r' hr'
    rcases List.mem_append.mp hr' with hr' | hr'
    · have hgaps := (List.pairwise_append.mp h.hourly.gaps).2.2 r' hr' r (List.mem_singleton.mpr rfl)
      omega
    · rw [List.mem_singleton.mp hr']
      exact hold

/-- **A logged epoch** keeps the files by the hour. -/
theorem kept_logEpoch {c : Clib} {l : RinexLogger} {R : List (FileRecord Within)} {now : ℤ}
    (h : Kept c l R now) (e : Entry) (hnow : now < e.time) {sats : List SatObs} (hne : sats ≠ [])
    (hlegal : ∀ s ∈ sats, LegalSat s) : ∃ R', Kept c (l.logEpoch c e.week e.tow sats) R' e.time := by
  have hpast : ∀ r ∈ R, ∀ x ∈ r.entries, x.time < e.time :=
    fun r hr x hx => (h.past r hr x hx).trans_lt hnow
  have hpast' : ∀ r ∈ R, ∀ x ∈ r.entries, x.time ≤ e.time := fun r hr x hx => (hpast r hr x hx).le
  have hkept : ∀ (first : Entry) (sats : List (SatObs × List UInt8)),
      tooOld first.written ⟨e.week, e.tow, []⟩ = false → Within first { e with sats := sats } := by
    intro first sats hyoung
    have heq : tooOld first.written ⟨e.week, e.tow, []⟩ = tooOld first.written e.written := rfl
    rw [heq, tooOld_eq, decide_eq_false_iff_not, not_le] at hyoung
    exact hyoung
  obtain ⟨R', hfiles, hlogged⟩ := h.files.logEpoch (fun sats => { e with sats := sats })
    (fun _ => rfl) hkept hne hlegal
  have hended : Ended Entry.written l R ⟨e.week, e.tow, []⟩ → ∀ r ∈ R, r.first.time + 3600 ≤ e.time :=
    fun h' => h.ended hnow h'
  refine ⟨R', ?_⟩
  cases hlogged with
  | lost hend hfile => exact ⟨h.hourly, hpast', hfiles, fun _ => hended hend⟩
  | unchanged hfile => exact ⟨h.hourly, hpast', hfiles, fun hnone => absurd hnone hfile⟩
  | begun hend hfile sats =>
    refine ⟨h.hourly.opened (e := { e with sats := sats }) hpast (hended hend), fun r hr y hy => ?_,
      hfiles, fun hnone => absurd hnone hfile⟩
    rcases List.mem_append.mp hr with hr | hr
    · exact hpast' r hr y hy
    · rw [List.mem_singleton.mp hr] at hy
      rw [List.mem_singleton.mp hy]
      exact le_rfl
  | added hfile old r sats hR hwithin =>
    subst hR
    refine ⟨h.hourly.extend (e := { e with sats := sats }) hpast hwithin, fun r' hr' y hy => ?_,
      hfiles, fun hnone => absurd hnone hfile⟩
    rcases List.mem_append.mp hr' with hr' | hr'
    · exact hpast' r' (List.mem_append_left _ hr') y hy
    · rw [List.mem_singleton.mp hr', FileRecord.entries_add] at hy
      rcases List.mem_append.mp hy with hy | hy
      · exact hpast' r (List.mem_append_right _ (List.mem_singleton.mpr rfl)) y hy
      · rw [List.mem_singleton.mp hy]
        exact le_rfl

/-! ### Runs -/

def process (c : Clib) (l : RinexLogger) (msg : List UInt8) : RinexLogger :=
  { l with msg := msg }.processMessage c

def magnitude : Float64 → ℚ≥0
  | .fin _ m => m
  | _ => 0

def gpsTime (t : ℤ × Float64) : ℚ := 604800 * t.1 + magnitude t.2

/-- The times of messages that come more than a second after each other. -/
structure Spaced (ts : List (ℤ × Float64)) : Prop where
  valid : ∀ t ∈ ts, TimeOfWeek t.2 (magnitude t.2)
  spaced : ts.IsChain fun t t' => gpsTime t + 1 < gpsTime t'

/-- Another message text does not matter to the files. -/
theorem kept_msg {c : Clib} {l : RinexLogger} {R : List (FileRecord Within)} {now : ℤ} (h : Kept c l R now)
    (msg : List UInt8) : Kept c { l with msg := msg } R now :=
  ⟨h.hourly, h.past, h.files.congr rfl rfl rfl rfl rfl rfl, h.aged⟩

/-- **A message** that comes half a second after the last epoch, or later, keeps the files by the
hour; the epoch it leaves behind is at most half a second ahead of it. -/
theorem kept_process {c : Clib} {l : RinexLogger} {R : List (FileRecord Within)} {now : ℤ}
    (h : Kept c l R now) (msg : List UInt8)
    (htime : ∀ t, headerTime c msg = some t →
      TimeOfWeek t.2 (magnitude t.2) ∧ (now : ℚ) + 1 / 2 < gpsTime t) :
    ∃ R' now', Kept c (process c l msg) R' now' ∧
      (now' = now ∨ ∃ t, headerTime c msg = some t ∧ (now' : ℚ) ≤ gpsTime t + 1 / 2) := by
  have hmsg := kept_msg h msg
  unfold process
  rw [processMessage_eq]
  dsimp only
  rcases hheader : headerTime c msg with _ | ⟨week, tow⟩
  · exact ⟨R, now, hmsg, Or.inl rfl⟩
  · obtain ⟨htow, hlater⟩ := htime _ hheader
    obtain ⟨hpos, hlt⟩ := week_headerTime hheader
    obtain ⟨k, hk, hrounded⟩ := roundedTow_eq htow
    dsimp only at htow hrounded hpos hlt ⊢
    rw [hrounded]
    split_ifs with hwidth
    · exact ⟨R, now, hmsg, Or.inl rfl⟩
    · rw [Bool.not_eq_true] at hwidth
      have hnear := abs_le.mp (accepted htow hk hwidth)
      rcases processBody_cases c { l with msg := msg } week (fin false ((30 * k : ℕ) : ℚ≥0)) _ with
        heq | ⟨sats, hne, hlegal, heq⟩
      · rw [heq]
        exact ⟨R, now, hmsg, Or.inl rfl⟩
      · have htime' : ((604800 * week + 30 * k : ℤ) : ℚ) = 604800 * week + (30 * k : ℕ) := by
          push_cast
          rfl
        unfold gpsTime at hlater
        dsimp only at hlater
        have hnow : now < 604800 * week + 30 * k := by
          have hlt : (now : ℚ) < ((604800 * week + 30 * k : ℤ) : ℚ) := by
            rw [htime']
            linarith [hnear.2]
          exact_mod_cast hlt
        obtain ⟨R', hR'⟩ := kept_logEpoch hmsg ⟨week, k, [], hpos, hlt, hk⟩ hnow hne hlegal
        rw [heq]
        refine ⟨R', _, hR', Or.inr ⟨_, rfl, ?_⟩⟩
        show ((604800 * week + 30 * k : ℤ) : ℚ) ≤ 604800 * week + magnitude tow + 1 / 2
        rw [htime']
        linarith [hnear.1]

theorem kept_run {c : Clib} (msgs : List (List UInt8)) {l : RinexLogger} {R : List (FileRecord Within)}
    {now : ℤ} (h : Kept c l R now)
    (hvalid : ∀ t ∈ msgs.filterMap (headerTime c), TimeOfWeek t.2 (magnitude t.2))
    (hspaced : (msgs.filterMap (headerTime c)).Pairwise fun t t' => gpsTime t + 1 < gpsTime t')
    (hlater : ∀ t ∈ msgs.filterMap (headerTime c), (now : ℚ) + 1 / 2 < gpsTime t) :
    ∃ R' now', Kept c (msgs.foldl (process c) l) R' now' := by
  induction msgs generalizing l R now with
  | nil => exact ⟨R, now, h⟩
  | cons msg msgs ih =>
    rcases hheader : headerTime c msg with _ | t
    · rw [List.filterMap_cons_none hheader] at hvalid hspaced hlater
      obtain ⟨R', now', hR', hnow'⟩ := kept_process h msg fun t ht => by
        rw [hheader] at ht
        cases ht
      obtain rfl : now' = now := by
        rcases hnow' with hnow' | ⟨t, ht, -⟩
        · exact hnow'
        · rw [hheader] at ht
          cases ht
      exact ih hR' hvalid hspaced hlater
    · rw [List.filterMap_cons_some hheader] at hvalid hspaced hlater
      obtain ⟨hfirst, hrest⟩ := List.pairwise_cons.mp hspaced
      obtain ⟨R', now', hR', hnow'⟩ := kept_process h msg fun t' ht' => by
        obtain rfl := Option.some.inj (hheader.symm.trans ht')
        exact ⟨hvalid t List.mem_cons_self, hlater t List.mem_cons_self⟩
      refine ih hR' (fun t' ht' => hvalid t' (List.mem_cons_of_mem _ ht')) hrest fun t' ht' => ?_
      rcases hnow' with rfl | ⟨t'', ht'', hle⟩
      · exact hlater t' (List.mem_cons_of_mem _ ht')
      · -- the epoch is at most half a second ahead of its message, the next message a second
        obtain rfl := Option.some.inj (hheader.symm.trans ht'')
        have := hfirst t' ht'
        linarith

theorem Spaced.pairwise {ts : List (ℤ × Float64)} (h : Spaced ts) :
    ts.Pairwise fun t t' => gpsTime t + 1 < gpsTime t' := by
  have : Trans (fun t t' : ℤ × Float64 => gpsTime t + 1 < gpsTime t')
      (fun t t' : ℤ × Float64 => gpsTime t + 1 < gpsTime t')
      (fun t t' : ℤ × Float64 => gpsTime t + 1 < gpsTime t') :=
    ⟨fun {a b d} hab hbd => by
      show gpsTime a + 1 < gpsTime d
      linarith⟩
  exact h.spaced.pairwise

theorem kept_fresh (c : Clib) {l : RinexLogger} (hfile : l.file = none) (hclosed : l.closed = []) :
    Kept c l [] 0 := by
  refine ⟨byHour_nil, fun _ h => absurd h List.not_mem_nil, .closed hfile ?_, fun _ _ h =>
    absurd h List.not_mem_nil⟩
  rw [hclosed]
  exact .nil

/-- **Hourly rotation**: over messages that come more than a second after each other, the epochs
written go up and are on the grid, none is in two files, the epochs of a file are within an hour of its
first and at most 120, the next file begins an hour after that or later, and no two files have the same
name. -/
theorem hourly_rotation (c : Clib) {l : RinexLogger} (hfile : l.file = none) (hclosed : l.closed = [])
    (msgs : List (List UInt8)) (htimes : Spaced (msgs.filterMap (headerTime (withGmtime c)))) :
    let files := filesOf (msgs.foldl (process (withGmtime c)) l)
    ∃ R : List (FileRecord Within), List.Forall₂ (HoldsRecord Entry.written (withGmtime c)) files R ∧
      ((R.flatMap FileRecord.entries).Pairwise fun a b => a.time < b.time) ∧
      (∀ r ∈ R, ∀ e ∈ r.entries, 30 ∣ e.time ∧ r.first.time ≤ e.time ∧
        e.time < r.first.time + 3600) ∧
      (∀ r ∈ R, r.entries.length ≤ 120) ∧
      (R.Pairwise fun r r' => r.first.time + 3600 ≤ r'.first.time) ∧
      (files.map Prod.fst).Nodup := by
  obtain ⟨R, now, hourly, -, hfiles, -⟩ := kept_run msgs (kept_fresh (withGmtime c) hfile hclosed)
    htimes.valid htimes.pairwise (fun t ht => by
      obtain ⟨msg, -, hheader⟩ := List.mem_filterMap.mp ht
      have hweek : (1 : ℚ) ≤ t.1 := by exact_mod_cast (week_headerTime hheader).1
      have hmag : (0 : ℚ) ≤ magnitude t.2 := (magnitude t.2).coe_nonneg
      unfold gpsTime
      rw [Int.cast_zero]
      linarith)
  have hholds := hfiles.filesOf
  refine ⟨R, hholds, hourly.sorted, fun r hr e he => ⟨dvd_time e, hourly.first_le hr he,
    lt_hour he⟩, fun r hr => hourly.length_le hr, hourly.gaps, ?_⟩
  have hnames : ∀ {files : List (List UInt8 × List UInt8)} {R : List (FileRecord Within)},
      List.Forall₂ (HoldsRecord Entry.written (withGmtime c)) files R →
        files.map Prod.fst = R.map (FileRecord.path Entry.written (withGmtime c)) := by
    intro files R h
    induction h with
    | nil => rfl
    | cons h _ ih => rw [List.map_cons, List.map_cons, h.1, ih]
  rw [hnames hholds]
  exact hourly.names c

/-- Messages at the start of a week, half a minute later and at the end of the hour. -/
def sampleMessages : List (List UInt8) :=
  [ascii "#RANGEA,0,0,0,FINE,2371,0;1,5,0,1,1,1,1,1,1,1,00000000*",
    ascii "#RANGEA,0,0,0,FINE,2371,30;1,5,0,1,1,1,1,1,1,1,00000000*",
    ascii "#RANGEA,0,0,0,FINE,2371,3600;1,5,0,1,1,1,1,1,1,1,00000000*"]

theorem hourly_rotation_sample :
    ((filesOf (sampleMessages.foldl (process (withGmtime sampleClib))
      { opens := fun _ => true })).map Prod.fst).Nodup := by
  have htimes : sampleMessages.filterMap (headerTime (withGmtime sampleClib)) =
      [(2371, fin false 0), (2371, fin false 30), (2371, fin false 3600)] := by
    decide +kernel
  have hspaced : Spaced (sampleMessages.filterMap (headerTime (withGmtime sampleClib))) := by
    rw [htimes]
    refine ⟨fun t ht => ?_, by decide +kernel⟩
    simp only [List.mem_cons, List.not_mem_nil, or_false] at ht
    rcases ht with rfl | rfl | rfl
    · exact ⟨⟨false, rfl, Or.inl rfl⟩, by decide +kernel, by decide +kernel⟩
    · exact ⟨⟨false, rfl, Or.inl rfl⟩, by decide +kernel, by decide +kernel⟩
    · exact ⟨⟨false, rfl, Or.inl rfl⟩, by decide +kernel, by decide +kernel⟩
  obtain ⟨R, -, -, -, -, -, hnames⟩ :=
    hourly_rotation sampleClib (l := { opens := fun _ => true }) rfl rfl sampleMessages hspaced
  exact hnames

end GpsBase.Rinex.Hourly
