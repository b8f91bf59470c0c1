import GpsBase.Rinex.Spans
import GpsBase.Web.FileTimes
import Mathlib.Data.Prod.Lex
import Mathlib.Data.List.Sort

/-! # The files of an export

`select_rinex_files` sees names only and takes a file to span an hour and two minutes on each side. The
results compare this with what the logger does, over an exact calendar: an epoch is in a selected file
if its file began in 2020 or later and less than two minutes after it (`export_complete`), and both
conditions are needed (`epochs_lost`). -/

namespace GpsBase.Web.Selection

open GpsBase.Lib.Binary64 GpsBase.Lib.CText GpsBase.Lib.Calendar GpsBase.Rinex.Logger
open GpsBase.Rinex.Logger.RinexLogger GpsBase.Rinex.Times GpsBase.Rinex.FileRecords
open GpsBase.Rinex.Spans GpsBase.Web.Export GpsBase.Web.FileTimes

/-! ### The selection -/

/-- `kRawDataDir` and the slash behind it. -/
def rawDataDir : List UInt8 := ascii "/sdcard/rawdata/"

def kFileSpan : ℤ := 3600 + 120

def kMargin : ℤ := 120

/-- An entry `readdir` returns; `regular` is `d_type == DT_REG`. -/
structure DirEntry where
  name : List UInt8
  regular : Bool
  name_le : name.length ≤ 255

/-- `parse_rinex_filename_utc` with an exact `utc_to_unix`. -/
def fileTime (name : List UInt8) : ℤ :=
  match scanFilename name with
  | none => -1
  | some d => if d.year < 2020 then -1 else d.unix

def found (start stop : ℤ) (ent : DirEntry) : Option (ℤ × List UInt8) :=
  let ft := fileTime ent.name
  if ent.regular = false ∨ ft < 0 then none
  else if ft < stop + kMargin ∧ start - kMargin < ft + kFileSpan then
    some (ft, (rawDataDir ++ ent.name).take 279)
  else none

/-- The order of the pairs: the times, then the paths byte by byte. -/
def key (p : ℤ × List UInt8) : ℤ ×ₗ List ℕ := toLex (p.1, p.2.map UInt8.toNat)

/-- `select_rinex_files`; a directory that cannot be opened is an empty one. -/
def selectRinexFiles (dir : List DirEntry) (start stop : ℤ) : List (List UInt8) :=
  ((dir.filterMap (found start stop)).insertionSort fun p q => key p ≤ key q).map Prod.snd

/-! ### The request -/

/-- The six numbers `parse_datetime_input` reads; the seconds may be left out. -/
structure Scanned where
  Y : Int32
  Mo : Int32
  D : Int32
  h : Int32
  m : Int32
  sec : Int32 := 0

def Scanned.date (t : Scanned) : DateTime :=
  ⟨t.Y.toInt, t.Mo.toInt, t.D.toInt, t.h.toInt, t.m.toInt, t.sec.toInt⟩

/-- `parse_datetime_input` with an exact `utc_to_unix`; `none` where fewer than five numbers are
read. -/
def parseDatetimeInput : Option Scanned → ℤ
  | none => -1
  | some t =>
    let d := t.date
    if d.year < 2020 ∨ 2099 < d.year ∨ d.month < 1 ∨ 12 < d.month ∨ d.day < 1 ∨ 31 < d.day then -1
    else d.unix

inductive Answer
  | invalidRange
  | response (r : Response)

/-- The path of the file an active logger writes. -/
def current (l : RinexLogger) : List UInt8 := if l.active then l.currentFile else []

/-- `rinex_export_handler`: the directory, what its files hold, and the logger at the request. -/
def exportRequest (dir : List DirEntry) (bytes : List UInt8 → List UInt8) (l : RinexLogger)
    (start stop : Option Scanned) : Answer :=
  let s := parseDatetimeInput start
  let e := parseDatetimeInput stop
  if s < 0 ∨ e < 0 ∨ e ≤ s then .invalidRange
  else .response (rinexExportHandler (current l)
    ((selectRinexFiles dir s e).map fun path => ⟨path, bytes path⟩))

theorem parseDatetimeInput_lt (t : Option Scanned) : parseDatetimeInput t < 2 ^ 44 := by
  rcases t with _ | t
  · decide
  · unfold parseDatetimeInput
    dsimp only
    split_ifs with h
    · decide
    · simp only [not_or, not_lt] at h
      obtain ⟨h1, h2, h3, h4, h5, h6⟩ := h
      have hh := t.h.toInt_lt
      have hm := t.m.toInt_lt
      have hs := t.sec.toInt_lt
      have hmonth : monthStart (isLeap t.date.year) t.date.month ≤ 366 := by
        refine (monthStart_le _ h3 (by omega) (by omega : (13 : ℤ) ≤ 13)).trans ?_
        rcases isLeap t.date.year with _ | _ <;> decide
      unfold DateTime.unix DateTime.days yearStart
      show (_ + _ + _) * 86400 + t.h.toInt * 3600 + t.m.toInt * 60 + t.sec.toInt < 2 ^ 44
      omega

/-! ### Names read back -/

theorem scanInt_minus {width : ℕ} {s rest : List UInt8} {n : ℤ}
    (h : scanInt width (45 :: s) = some (n, rest)) : n ≤ 0 := by
  have hspace : (45 :: s).dropWhile isSpace = 45 :: s := List.dropWhile_cons_of_neg (by decide)
  unfold scanInt at h
  rw [hspace] at h
  simp only [signOf] at h
  split_ifs at h
  obtain ⟨rfl, -⟩ := Prod.mk.inj (Option.some.inj h)
  exact neg_nonpos.mpr (Int.natCast_nonneg _)

/-- What `parse_rinex_filename_utc` reads first is the year. -/
theorem scanFilename_eq_some {s : List UInt8} {x : DateTime}
    (h : scanFilename (ascii "BASE_" ++ s) = some x) :
    ∃ s₁ s₂ s₃ s₄, scanInt 4 s = some (x.year, s₁) ∧ scanInt 2 s₁ = some (x.month, s₂) ∧
      scanInt 2 s₂ = some (x.day, s₃) ∧ scanText (ascii "_") s₃ = some s₄ := by
  unfold scanFilename at h
  rw [scanText_append] at h
  simp only [Option.bind_eq_bind, Option.bind_some, Option.bind_eq_some_iff, Prod.exists] at h
  obtain ⟨Y, s₁, h1, Mo, s₂, h2, D, s₃, h3, s₄, h4, _, _, _, _, _, _, _, _, _, hx⟩ := h
  cases hx
  exact ⟨s₁, s₂, s₃, s₄, h1, h2, h3, h4⟩

/-- A name whose year does not have four digits is not taken for a time. -/
theorem scanFilename_year {d : DateTime} (h : d.Valid) (hyear : ¬ (0 ≤ d.year ∧ d.year < 10000))
    {x : DateTime} (hx : scanFilename (baseName d) = some x) : x.year < 2020 := by
  unfold baseName at hx
  obtain ⟨s₁, s₂, s₃, s₄, h1, h2, h3, h4⟩ := scanFilename_eq_some hx
  rcases lt_or_ge d.year 0 with hneg | hpos
  · have hminus : zeroInt 4 d.year = 45 :: padZero 3 (decimal d.year.natAbs) := by
      unfold zeroInt minus
      rw [decide_eq_true hneg, if_pos rfl, if_pos hneg]
      rfl
    rw [hminus, List.cons_append] at h1
    have := scanInt_minus h1
    omega
  · -- the digits of the date go on where the underscore should be
    exfalso
    obtain ⟨⟨hmo0, hmo1⟩, ⟨hd0, hd1⟩, -, -, -⟩ := smallFields_of_valid h
    obtain ⟨Y, hY⟩ := Int.eq_ofNat_of_zero_le hpos
    obtain ⟨Mo, hMo⟩ := Int.eq_ofNat_of_zero_le hmo0
    obtain ⟨D, hD⟩ := Int.eq_ofNat_of_zero_le hd0
    have hfive : 5 ≤ (zeroInt 4 d.year).length := by
      have hle : ¬ (decimal Y).length ≤ 4 := by
        unfold decimal
        rw [List.length_map, Nat.length_toDigits_le_iff (by norm_num) (by norm_num)]
        omega
      rw [hY, zeroInt_natCast]
      unfold padZero
      rw [List.length_append]
      omega
    have hlength : 9 ≤ (zeroInt 4 d.year ++ (zeroInt 2 d.month ++ zeroInt 2 d.day)).length := by
      rw [List.length_append, List.length_append, length_zeroInt_two hmo0 hmo1,
        length_zeroInt_two hd0 hd1]
      omega
    have hdigits : ∀ b ∈ zeroInt 4 d.year ++ (zeroInt 2 d.month ++ zeroInt 2 d.day),
        isDigit b = true := by
      intro b hb
      rw [List.mem_append, List.mem_append, hY, hMo, hD] at hb
      rcases hb with hb | hb | hb
      · exact isDigit_zeroInt 4 Y b hb
      · exact isDigit_zeroInt 2 Mo b hb
      · exact isDigit_zeroInt 2 D b hb
    rw [← List.append_assoc (zeroInt 2 d.month), ← List.append_assoc (zeroInt 4 d.year)] at h1
    generalize zeroInt 4 d.year ++ (zeroInt 2 d.month ++ zeroInt 2 d.day) = ds at hlength hdigits h1
    have hdrop : ∀ n, ∀ b ∈ ds.drop n, isDigit b = true :=
      fun n b hb => hdigits b (List.mem_of_mem_drop hb)
    rw [scanInt_digits (by norm_num) hdigits (by omega)] at h1
    obtain ⟨-, rfl⟩ := Prod.mk.inj (Option.some.inj h1)
    rw [scanInt_digits (by norm_num) (hdrop 4) (by rw [List.length_drop]; omega), List.drop_drop] at h2
    obtain ⟨-, rfl⟩ := Prod.mk.inj (Option.some.inj h2)
    rw [scanInt_digits (by norm_num) (hdrop _) (by rw [List.length_drop]; omega), List.drop_drop] at h3
    obtain ⟨-, rfl⟩ := Prod.mk.inj (Option.some.inj h3)
    obtain ⟨b, s, hb⟩ : ∃ b s, ds.drop (4 + 2 + 2) = b :: s :=
      List.exists_cons_of_length_pos (by rw [List.length_drop]; omega)
    have hdigit := hdrop (4 + 2 + 2) b (hb ▸ List.mem_cons_self)
    rw [hb] at h4
    unfold scanText at h4
    split_ifs at h4 with hpre
    have hscore := (List.cons_prefix_cons.mp hpre).1
    rw [← hscore] at hdigit
    exact absurd hdigit (by decide)

/-- **The time of a file of the logger**, read back from its name. -/
theorem fileTime_baseName {d : DateTime} (h : d.Valid) (ht : 0 ≤ fileTime (baseName d)) :
    fileTime (baseName d) = d.unix := by
  unfold fileTime at ht ⊢
  by_cases hyear : 0 ≤ d.year ∧ d.year < 10000
  · rw [scanFilename_baseName h hyear.1 hyear.2] at ht ⊢
    dsimp only at ht ⊢
    split_ifs at ht ⊢
    · exact absurd ht (by decide)
    · rfl
  · rcases hscan : scanFilename (baseName d) with _ | x
    · rw [hscan] at ht
      exact absurd ht (by decide)
    · rw [hscan] at ht
      dsimp only at ht
      rw [if_pos (scanFilename_year h hyear hscan)] at ht
      exact absurd ht (by decide)

theorem fileTime_of_year {d : DateTime} (h : d.Valid) (h1 : 2020 ≤ d.year) (h2 : d.year < 10000) :
    fileTime (baseName d) = d.unix := by
  unfold fileTime
  rw [scanFilename_baseName h (by omega) h2]
  exact if_neg (by omega)

/-- Where `utc_to_unix` is exact, this is what `parse_rinex_filename_utc` returns. -/
theorem parse_eq_fileTime {model : DataModel} {name : List UInt8}
    (h : ∀ d, scanFilename name = some d → unixOf model d = some d.unix) :
    parseRinexFilenameUtc model name = some (fileTime name) := by
  unfold parseRinexFilenameUtc fileTime
  rcases hscan : scanFilename name with _ | d
  · rfl
  · dsimp only
    rw [h d hscan]
    split_ifs <;> rfl

/-! ### What is selected -/

theorem found_eq_some {start stop : ℤ} {ent : DirEntry} {p : ℤ × List UInt8}
    (h : found start stop ent = some p) :
    ent.regular = true ∧ 0 ≤ fileTime ent.name ∧ p = (fileTime ent.name, rawDataDir ++ ent.name) := by
  unfold found at h
  dsimp only at h
  split_ifs at h with h1 h2
  rw [not_or, Bool.not_eq_false, not_lt] at h1
  have hlength : (rawDataDir ++ ent.name).length ≤ 279 := by
    have := ent.name_le
    have hdir : rawDataDir.length = 16 := by decide
    rw [List.length_append]
    omega
  rw [List.take_of_length_le hlength] at h
  exact ⟨h1.1, h1.2, (Option.some.inj h).symm⟩

theorem mem_select {dir : List DirEntry} {start stop : ℤ} {ent : DirEntry} (hent : ent ∈ dir)
    (hregular : ent.regular = true) (h0 : 0 ≤ fileTime ent.name)
    (h1 : fileTime ent.name < stop + kMargin) (h2 : start - kMargin < fileTime ent.name + kFileSpan) :
    rawDataDir ++ ent.name ∈ selectRinexFiles dir start stop := by
  have hfound : found start stop ent =
      some (fileTime ent.name, (rawDataDir ++ ent.name).take 279) := by
    unfold found
    dsimp only
    rw [if_neg (by simp [hregular, h0]), if_pos ⟨h1, h2⟩]
  have heq := (found_eq_some hfound).2.2
  rw [heq] at hfound
  exact List.mem_map.mpr ⟨_, (List.mem_insertionSort _).mpr (List.mem_filterMap.mpr ⟨ent, hent, hfound⟩), rfl⟩

/-- **No file is returned twice.** -/
theorem nodup_select {dir : List DirEntry} (hdir : (dir.map DirEntry.name).Nodup) (start stop : ℤ) :
    (selectRinexFiles dir start stop).Nodup := by
  have hpairs : ((dir.filterMap (found start stop)).map Prod.snd).Nodup := by
    rw [List.Nodup, List.pairwise_map, List.pairwise_filterMap]
    refine (List.pairwise_map.mp hdir).imp fun {a b} hne p hp q hq heq => hne ?_
    rw [(found_eq_some hp).2.2, (found_eq_some hq).2.2] at heq
    exact List.append_cancel_left heq
  unfold selectRinexFiles
  exact ((List.perm_insertionSort _ _).map _).nodup_iff.mpr hpairs

/-- Two files returned, as they were found. -/
theorem select_pair {dir : List DirEntry} {start stop : ℤ} {p q : List UInt8}
    (h : [p, q].Sublist (selectRinexFiles dir start stop)) :
    ∃ a b : DirEntry, 0 ≤ fileTime a.name ∧ 0 ≤ fileTime b.name ∧ p = rawDataDir ++ a.name ∧
      q = rawDataDir ++ b.name ∧ fileTime a.name ≤ fileTime b.name := by
  obtain ⟨l, hl, hmap⟩ := List.sublist_map_iff.mp h
  obtain ⟨x, y, rfl⟩ : ∃ x y, l = [x, y] := by
    have hlength := congrArg List.length hmap
    rw [List.length_map] at hlength
    exact List.length_eq_two.mp hlength.symm
  have hsorted := (List.pairwise_insertionSort (fun p q => key p ≤ key q) _).sublist hl
  have hle : key x ≤ key y := (List.pairwise_cons.mp hsorted).1 y (List.mem_singleton_self y)
  have hmem : ∀ z ∈ [x, y], ∃ ent ∈ dir, found start stop ent = some z := fun z hz =>
    List.mem_filterMap.mp ((List.mem_insertionSort _).mp (hl.subset hz))
  obtain ⟨a, -, ha⟩ := hmem x List.mem_cons_self
  obtain ⟨b, -, hb⟩ := hmem y (List.mem_cons_of_mem _ (List.mem_singleton_self y))
  obtain ⟨-, ha0, rfl⟩ := found_eq_some ha
  obtain ⟨-, hb0, rfl⟩ := found_eq_some hb
  obtain ⟨rfl, hq⟩ := List.cons.inj hmap
  obtain ⟨rfl, -⟩ := List.cons.inj hq
  exact ⟨a, b, ha0, hb0, rfl, rfl, Prod.Lex.monotone_fst _ _ hle⟩

/-! ### Completeness -/

/-- The directory lists the file of a path. -/
def Listed (dir : List DirEntry) (path : List UInt8) : Prop :=
  ∃ ent ∈ dir, ent.regular = true ∧ rawDataDir ++ ent.name = path

/-- **The condition**, on the second a file begins and the second of an epoch: the year of the first is
one the names and the selection can tell, and the epoch is not two minutes earlier. -/
structure Timely (f t : ℤ) : Prop where
  year_ge : 2020 ≤ (DateTime.ofUnix f).year
  year_lt : (DateTime.ofUnix f).year < 10000
  late : f < t + kMargin

/-- A file has an epoch of the range that is timely. -/
def Wanted (r : FileRecord Young) (start stop : ℤ) : Prop :=
  ∃ e ∈ r.entries, ∃ t f, e.time? = some t ∧ r.first.time? = some f ∧ Timely f t ∧ start ≤ t ∧ t ≤ stop

/-- **The selection is complete and in order.** -/
structure Selects (c : Clib) (R : List (FileRecord Young)) (dir : List DirEntry) (start stop : ℤ) : Prop where
  complete : ∀ r ∈ R, Listed dir (r.path Entry.written c) → Wanted r start stop →
    r.path Entry.written c ∈ selectRinexFiles dir start stop
  once : (selectRinexFiles dir start stop).Nodup
  ordered : ∀ r ∈ R, ∀ r' ∈ R, ∀ f f', r.first.time? = some f → r'.first.time? = some f' →
    [r.path Entry.written c, r'.path Entry.written c].Sublist (selectRinexFiles dir start stop) → f < f'

theorem selected_of_wanted (c : Clib) {r : FileRecord Young} {dir : List DirEntry} {start stop : ℤ}
    (hstop : stop < 2 ^ 44) (hstart : 0 ≤ start) (hlisted : Listed dir (r.path Entry.written (withGmtime c)))
    (h : Wanted r start stop) : r.path Entry.written (withGmtime c) ∈ selectRinexFiles dir start stop := by
  obtain ⟨e, he, t, f, ht, hf, htimely, hge, hle⟩ := h
  obtain ⟨ent, hent, hregular, hpath⟩ := hlisted
  have hyear := htimely.year_ge
  have hlate := htimely.late
  have hvalid := DateTime.valid_ofUnix f
  have hname : ent.name = baseName (DateTime.ofUnix f) := by
    rw [path_eq c hf] at hpath
    exact List.append_cancel_left hpath
  have htime : fileTime ent.name = f := by
    rw [hname, fileTime_of_year hvalid htimely.year_ge htimely.year_lt, DateTime.unix_ofUnix]
  have hf0 : 0 ≤ f := by
    have hspec := (yearOf_spec (f / 86400)).1
    change 2020 ≤ yearOf (f / 86400) at hyear
    unfold yearStart at hspec
    omega
  unfold kMargin at hlate
  have hhour := lt_hour he ht hf ⟨by omega, by omega⟩ ⟨hf0, by omega⟩
  rw [← hpath]
  refine mem_select hent hregular (htime ▸ hf0) ?_ ?_
  · rw [htime]
    unfold kMargin
    omega
  · rw [htime]
    unfold kMargin kFileSpan
    omega

theorem ordered_select (c : Clib) {dir : List DirEntry} (hdir : (dir.map DirEntry.name).Nodup)
    {start stop : ℤ} {r r' : FileRecord Young} {f f' : ℤ} (hf : r.first.time? = some f)
    (hf' : r'.first.time? = some f')
    (h : [r.path Entry.written (withGmtime c), r'.path Entry.written (withGmtime c)].Sublist (selectRinexFiles dir start stop)) :
    f < f' := by
  obtain ⟨a, b, ha0, hb0, ha, hb, hle⟩ := select_pair h
  have htime : ∀ {r : FileRecord Young} {f : ℤ} {name : List UInt8}, r.first.time? = some f →
      0 ≤ fileTime name → r.path Entry.written (withGmtime c) = rawDataDir ++ name → fileTime name = f := by
    intro r f name hf h0 hpath
    rw [path_eq c hf] at hpath
    obtain rfl : baseName (DateTime.ofUnix f) = name := List.append_cancel_left hpath
    rw [fileTime_baseName (DateTime.valid_ofUnix f) h0, DateTime.unix_ofUnix]
  rw [htime hf ha0 ha, htime hf' hb0 hb] at hle
  refine lt_of_le_of_ne hle ?_
  rintro rfl
  have hnodup := (nodup_select hdir start stop).sublist h
  rw [path_eq c hf, path_eq c hf'] at hnodup
  exact (List.nodup_cons.mp hnodup).1 (List.mem_singleton_self _)

theorem refused_of_selected {l : RinexLogger} (hactive : l.active = true) (hname : l.currentFile ≠ [])
    {dir : List DirEntry} (bytes : List UInt8 → List UInt8) {start stop : Option Scanned}
    (hstart : 0 ≤ parseDatetimeInput start) (hlt : parseDatetimeInput start < parseDatetimeInput stop)
    (h : l.currentFile ∈ selectRinexFiles dir (parseDatetimeInput start) (parseDatetimeInput stop)) :
    exportRequest dir bytes l start stop = .response .conflict := by
  unfold exportRequest
  dsimp only
  rw [if_neg (by omega)]
  unfold rinexExportHandler selectedActiveRinexFile current
  have hne : (selectRinexFiles dir (parseDatetimeInput start) (parseDatetimeInput stop)).map
      (fun path => (⟨path, bytes path⟩ : SourceFile)) ≠ [] := by
    intro hnil
    rw [List.map_eq_nil_iff] at hnil
    rw [hnil] at h
    cases h
  rw [if_neg hne, hactive, if_pos rfl, List.map_map, decide_eq_true hname, Bool.true_and]
  have hcontains : (List.map (SourceFile.path ∘ fun path => (⟨path, bytes path⟩ : SourceFile))
      (selectRinexFiles dir (parseDatetimeInput start) (parseDatetimeInput stop))).contains
        l.currentFile = true := by
    rw [show (SourceFile.path ∘ fun path => (⟨path, bytes path⟩ : SourceFile)) = id from rfl, List.map_id]
    exact List.contains_iff_mem.mpr h
  rw [if_pos hcontains]

/-- **The export is complete**: over every run of the logger and every request, the files selected
hold the timely epochs of the range, in order and once each, and a request for such an epoch of the
file being written is refused. -/
theorem export_complete (c : Clib) (opens : ℕ → Bool) (calls : List Call) :
    let l := calls.foldl (call (withGmtime c)) { opens := opens }
    ∃ R : List (FileRecord Young),
      List.Forall₂ (HoldsRecord Entry.written (withGmtime c)) (filesOf l) R ∧
      ∀ (dir : List DirEntry) (bytes : List UInt8 → List UInt8) (start stop : Option Scanned),
        (dir.map DirEntry.name).Nodup → 0 ≤ parseDatetimeInput start →
        parseDatetimeInput start < parseDatetimeInput stop →
          Selects (withGmtime c) R dir (parseDatetimeInput start) (parseDatetimeInput stop) ∧
          ∀ f, l.file = some f →
            ∃ r ∈ R, HoldsRecord Entry.written (withGmtime c) (l.currentFile, f.bytes) r ∧
              (Listed dir l.currentFile →
                Wanted r (parseDatetimeInput start) (parseDatetimeInput stop) →
                  exportRequest dir bytes l start stop = .response .conflict) := by
  intro l
  obtain ⟨R, hR⟩ := recorded_run (withGmtime c) opens calls
  refine ⟨R, hR.files.filesOf, fun dir bytes start stop hdir hstart hlt =>
    ⟨⟨?_, nodup_select hdir _ _, ?_⟩, fun f hfile => ?_⟩⟩
  · exact fun r _ hlisted hwanted =>
      selected_of_wanted c (parseDatetimeInput_lt stop) hstart hlisted hwanted
  · exact fun r _ r' _ f f' hf hf' h => ordered_select c hdir hf hf' h
  · have hactive : l.active = true := by
      by_contra hoff
      rw [hR.inactive (Bool.eq_false_iff.mpr hoff)] at hfile
      cases hfile
    rcases hR.files with ⟨hnone, -⟩ | ⟨old, r, x, rfl, -, hopen⟩
    · rw [hnone] at hfile
      cases hfile
    · have hbytes : f.bytes = x.bytes := by
        rw [← Option.some.inj (hopen.holds.file.symm.trans hfile)]
        rfl
      refine ⟨r, List.mem_append_right _ (List.mem_singleton_self r), hbytes ▸ hopen.holdsRecord,
        fun hlisted hwanted => ?_⟩
      have hselected := selected_of_wanted c (parseDatetimeInput_lt stop) hstart
        (hopen.path ▸ hlisted) hwanted
      have hname : l.currentFile ≠ [] := by
        obtain ⟨ent, -, -, hpath⟩ := hlisted
        rw [← hpath]
        exact List.cons_ne_nil _ _
      exact refused_of_selected hactive hname bytes hstart hlt (hopen.path ▸ hselected)

/-! ### Epochs that are not found -/

def messageAt (time : String) : List UInt8 :=
  ascii ("#RANGEA,0,0,0,FINE," ++ time ++ ";1,5,0,1,1,1,1,1,1,1,00000000*00000000\r\n")

/-- A session in which two epochs are logged. -/
def twoEpochs (time time' : String) : List Call :=
  [.start (.fin false 0) (.fin false 0) (.fin false 0) [] [] (.fin false 0), .feed (messageAt time),
    .feed (messageAt time')]

def after (calls : List Call) : RinexLogger :=
  calls.foldl (call (withGmtime Rinex.Sessions.sampleClib)) { opens := fun _ => true }

/-- The files of that session, when it has ended. -/
def filesAfter (time time' : String) : List (List UInt8 × List UInt8) :=
  filesOf (after (twoEpochs time time' ++ [.stop]))

def listing (name : String) (h : (ascii name).length ≤ 255) : List DirEntry := [⟨ascii name, true, h⟩]

/-- **Epochs that are recorded and not selected**: the receiver's time goes back an hour after the file
was opened; and a file was opened in the last half hour of 2019. -/
theorem epochs_lost :
    ((filesAfter "2371,3600" "2371,0").any fun f =>
        decide (f.1 = rawDataDir ++ ascii "BASE_20250615_010000.rnx" ∧
          ascii "> 2025  6 15  0  0  0.0000000  0  1" <:+: f.2)) = true ∧
      selectRinexFiles (listing "BASE_20250615_010000.rnx" (by decide))
        (parseDatetimeInput (some ⟨2025, 6, 15, 0, 0, 0⟩))
        (parseDatetimeInput (some ⟨2025, 6, 15, 0, 0, 30⟩)) = [] ∧
      ((filesAfter "2086,257400" "2086,259200").any fun f =>
        decide (f.1 = rawDataDir ++ ascii "BASE_20191231_233000.rnx" ∧
          ascii "> 2020  1  1  0  0  0.0000000  0  1" <:+: f.2)) = true ∧
      selectRinexFiles (listing "BASE_20191231_233000.rnx" (by decide))
        (parseDatetimeInput (some ⟨2020, 1, 1, 0, 0, 0⟩))
        (parseDatetimeInput (some ⟨2020, 1, 1, 0, 0, 30⟩)) = [] := by
  refine ⟨?_, ?_, ?_, ?_⟩ <;> decide +kernel

/-- A session of the summer of 2025 that goes on. -/
def summer : RinexLogger := after (twoEpochs "2371,0" "2371,30")

/-- A request for its first minute. -/
theorem export_complete_summer :
    let dir := listing "BASE_20250615_000000.rnx" (by decide)
    let start := some ⟨2025, 6, 15, 0, 0, 0⟩
    let stop := some ⟨2025, 6, 15, 0, 1, 0⟩
    ∃ R, List.Forall₂ (HoldsRecord Entry.written (withGmtime Rinex.Sessions.sampleClib)) (filesOf summer) R ∧
      Selects (withGmtime Rinex.Sessions.sampleClib) R dir (parseDatetimeInput start)
        (parseDatetimeInput stop) ∧
      ∃ r ∈ R, r.path Entry.written (withGmtime Rinex.Sessions.sampleClib) = summer.currentFile ∧
        (Wanted r (parseDatetimeInput start) (parseDatetimeInput stop) →
          exportRequest dir (fun _ => []) summer start stop = .response .conflict) := by
  intro dir start stop
  have hopen : summer.file.isSome ∧
      summer.currentFile = rawDataDir ++ ascii "BASE_20250615_000000.rnx" := by
    decide +kernel
  have hall := export_complete Rinex.Sessions.sampleClib (fun _ => true) (twoEpochs "2371,0" "2371,30")
  have hsummer : (twoEpochs "2371,0" "2371,30").foldl (call (withGmtime Rinex.Sessions.sampleClib))
      { opens := fun _ => true } = summer := rfl
  rw [hsummer] at hall
  obtain ⟨R, hfiles, hall⟩ := hall
  obtain ⟨hselects, hrefused⟩ := hall dir (fun _ => []) start stop (by decide) (by decide +kernel)
    (by decide +kernel)
  obtain ⟨f, hfile⟩ := Option.isSome_iff_exists.mp hopen.1
  obtain ⟨r, hr, ⟨hpath, -⟩, hconflict⟩ := hrefused f hfile
  dsimp only at hpath
  exact ⟨R, hfiles, hselects, r, hr, hpath.symm,
    hconflict ⟨_, List.mem_singleton_self _, rfl, hopen.2.symm⟩⟩

end GpsBase.Web.Selection
