import GpsBase.Survey.LineFeed

/-! # The satellite list of the survey manager

`parse_line` and what it makes of the satellite sentences: `parse_gsa` counts the satellites used and
`parse_gsv` collects those in view. A cycle of GSV sentences of one system is put together in a buffer
that all systems share; its last sentence replaces the entries of the system in the list.

The members that position records change are not here, and such a record leaves these alone. Numbers
of `uint8_t` and `uint16_t` are natural numbers: they are clamped to their ranges before they are
stored. -/

namespace GpsBase.Survey.Satellites

open GpsBase.Lib.CText GpsBase.Lib.Search GpsBase.Lib.Lines GpsBase.Survey.LineFeed

/-! ### Fields -/

/-- The comma between two fields. -/
def comma : UInt8 := 44

def withoutChecksum (value : List UInt8) : List UInt8 := value.takeWhile (· ≠ 42)

def csvField (value : List UInt8) : ℕ → Option (List UInt8)
  | 0 => some (value.takeWhile (· ≠ comma))
  | index + 1 =>
    match value.dropWhile (· ≠ comma) with
    | [] => none
    | _ :: rest => csvField rest index

/-- `parse_int`: a text that does not fit its scratch counts as zero. -/
def parseInt (text : List UInt8) : ℤ :=
  let text := withoutChecksum text
  if text = [] then 0 else if 16 ≤ text.length then 0 else atoi text

/-- `std::clamp` from zero on. -/
def clamp (value : ℤ) (hi : ℕ) : ℕ := (max 0 (min value hi)).toNat

def fields (value : List UInt8) : List (List UInt8) := value.splitOn comma

/-- **`csv_field` reads the fields between the commas.** -/
theorem csvField_eq : ∀ (index : ℕ) (value : List UInt8), csvField value index = (fields value)[index]?
  | 0, value => by
    unfold fields csvField
    rw [splitOn_eq]
    rfl
  | index + 1, value => by
    have hlength := congrArg List.length (List.takeWhile_append_dropWhile (p := (· ≠ comma)) (l := value))
    have hdrop := drop_length_takeWhile (· ≠ comma) value
    rw [List.length_append] at hlength
    unfold fields csvField
    rw [splitOn_eq]
    rcases hrest : value.dropWhile (· ≠ comma) with _ | ⟨b, rest⟩
    · rw [hrest, List.length_nil] at hlength
      rw [if_neg (by omega)]
      rfl
    · rw [hrest, List.length_cons] at hlength
      rw [if_pos (by omega), List.getElem?_cons_succ, ← List.drop_drop, hdrop, hrest, List.drop_one,
        List.tail_cons]
      exact csvField_eq index rest

/-! ### Satellites -/

structure SatelliteInfo where
  prn : ℕ
  elevation : ℕ
  azimuth : ℕ
  snr : ℕ
  system : ℕ
  deriving DecidableEq, Repr

/-- The satellites used, of `SurveySnapshot`. -/
structure Used where
  gps : ℤ := 0
  glonass : ℤ := 0
  galileo : ℤ := 0
  beidou : ℤ := 0
  deriving DecidableEq, Repr

def kMaxSatellites : ℕ := 64

def kMaxGsvSatellites : ℕ := 20

/-- The members that satellite sentences change; the arrays are there up to their counts. -/
structure SurveyManager where
  live : Used
  satelliteList : List SatelliteInfo
  gsvBuffer : List SatelliteInfo
  gsvSystem : ℕ
  deriving DecidableEq, Repr

namespace SurveyManager

def start : SurveyManager := { live := {}, satelliteList := [], gsvBuffer := [], gsvSystem := 0 }

def parseGsa (s : SurveyManager) (line : List UInt8) : SurveyManager :=
  match csvField line 18 with
  | none => s
  | some field =>
    let count := ((List.range 12).countP fun i => (csvField line (i + 3)).any (· ≠ []) : ℕ)
    match parseInt field with
    | 1 => { s with live := { s.live with gps := count } }
    | 2 => { s with live := { s.live with glonass := count } }
    | 3 => { s with live := { s.live with galileo := count } }
    | 4 => { s with live := { s.live with beidou := count } }
    | _ => s

/-- The fields of a satellite; the last one may be missing. -/
structure Report where
  prn : List UInt8
  elevation : List UInt8
  azimuth : List UInt8
  snr : Option (List UInt8)

def entry (system : ℕ) (r : Report) : SatelliteInfo :=
  { prn := clamp (parseInt r.prn) 999, elevation := clamp (parseInt r.elevation) 90
    azimuth := clamp (parseInt r.azimuth) 359
    snr := match r.snr with
      | some snr => clamp (parseInt snr) 99
      | none => 0
    system := system }

/-- The loop over the satellites of a sentence, from field `i` on; `fuel` bounds its rounds. -/
def collect (payload : List UInt8) (system : ℕ) : ℕ → ℕ → List SatelliteInfo → List SatelliteInfo
  | 0, _, buffer => buffer
  | fuel + 1, i, buffer =>
    if buffer.length < kMaxGsvSatellites then
      match csvField payload i, csvField payload (i + 1), csvField payload (i + 2) with
      | some prn, some elevation, some azimuth =>
        if parseInt prn = 0 then collect payload system fuel (i + 4) buffer
        else collect payload system fuel (i + 4)
          (buffer ++ [entry system ⟨prn, elevation, azimuth, csvField payload (i + 3)⟩])
      | _, _, _ => buffer
    else buffer

/-- The entries of a system in the list. -/
def entries (s : SurveyManager) (system : ℕ) : List SatelliteInfo :=
  s.satelliteList.filter (·.system = system)

def others (s : SurveyManager) (system : ℕ) : List SatelliteInfo :=
  s.satelliteList.filter (·.system ≠ system)

/-- The last sentence of a cycle: the buffer replaces the entries of the system. -/
def merge (s : SurveyManager) (system : ℕ) : SurveyManager :=
  { s with satelliteList := s.others system ++ s.gsvBuffer.take (kMaxSatellites - (s.others system).length) }

/-- `parse_gsv`; every round of the loop reads a field of the sentence, so its length bounds them. -/
def parseGsv (s : SurveyManager) (line : List UInt8) (system : ℕ) : SurveyManager :=
  let payload := withoutChecksum line
  match csvField payload 1, csvField payload 2 with
  | some messageCountField, some messageNumberField =>
    let messageCount := parseInt messageCountField
    let messageNumber := parseInt messageNumberField
    if messageCount < 1 ∨ messageNumber < 1 then s
    else
      let s :=
        if messageNumber = 1 ∨ system ≠ s.gsvSystem then { s with gsvBuffer := [], gsvSystem := system }
        else s
      let s := { s with gsvBuffer := collect payload system (payload.length + 1) 4 s.gsvBuffer }
      if messageNumber ≠ messageCount then s else s.merge system
  | _, _ => s

def gsvSystemOf (line : List UInt8) : Option ℕ :=
  if ascii "$GPGSV" <+: line then some 1
  else if ascii "$GLGSV" <+: line then some 2
  else if ascii "$GAGSV" <+: line then some 3
  else if ascii "$GBGSV" <+: line then some 4
  else none

def parseLine (s : SurveyManager) (line : List UInt8) : SurveyManager :=
  if ascii "$GNGSA" <+: line then s.parseGsa line
  else
    match gsvSystemOf line with
    | some system => s.parseGsv line system
    | none => s

/-! ### What a sentence says -/

/-- The satellites in the fields of a sentence, from the first of them on. -/
def reports : List (List UInt8) → List Report
  | prn :: elevation :: azimuth :: snr :: rest => ⟨prn, elevation, azimuth, some snr⟩ :: reports rest
  | [prn, elevation, azimuth] => [⟨prn, elevation, azimuth, none⟩]
  | _ => []

/-- A number says that there is a satellite. -/
def Report.named (r : Report) : Bool := parseInt r.prn ≠ 0

def reported (line : List UInt8) : List Report :=
  (reports ((fields (withoutChecksum line)).drop 4)).filter Report.named

/-- **The loop collects the satellites of the sentence**, as many as the buffer takes. -/
theorem collect_eq (payload : List UInt8) (system : ℕ) : ∀ (fuel i : ℕ) (buffer : List SatelliteInfo),
    ((fields payload).drop i).length < fuel → buffer.length ≤ kMaxGsvSatellites →
      collect payload system fuel i buffer =
        (buffer ++ ((reports ((fields payload).drop i)).filter Report.named).map (entry system)).take
          kMaxGsvSatellites
  | 0, _, _, hfuel, _ => absurd hfuel (Nat.not_lt_zero _)
  | fuel + 1, i, buffer, hfuel, hbuffer => by
    have hfield : ∀ j, csvField payload (i + j) = ((fields payload).drop i)[j]? := fun j => by
      rw [csvField_eq, List.getElem?_drop]
    have hnext : (fields payload).drop (i + 4) = ((fields payload).drop i).drop 4 := by
      rw [List.drop_drop]
    have ih := collect_eq payload system fuel (i + 4)
    have hfield0 := hfield 0
    rw [Nat.add_zero] at hfield0
    rw [hnext] at ih
    unfold collect
    rw [hfield0, hfield 1, hfield 2, hfield 3]
    generalize (fields payload).drop i = rest at hfuel ih ⊢
    split_ifs with hroom
    · -- the fields in groups of four, as `reports` takes them
      have hround : ∀ r more, reports rest = r :: more → reports (rest.drop 4) = more →
          0 < rest.length →
          (if parseInt r.prn = 0 then collect payload system fuel (i + 4) buffer
            else collect payload system fuel (i + 4) (buffer ++ [entry system r])) =
          (buffer ++ ((reports rest).filter Report.named).map (entry system)).take kMaxGsvSatellites := by
        intro r more hr hmore hpos
        have hshort : (rest.drop 4).length < fuel := by rw [List.length_drop]; omega
        rw [hr]
        split_ifs with hzero
        · rw [ih buffer hshort hbuffer, hmore, List.filter_cons_of_neg (by simp [Report.named, hzero])]
        · rw [ih _ hshort (by rw [List.length_append, List.length_singleton]; omega), hmore,
            List.filter_cons_of_pos (by simpa [Report.named] using hzero), List.map_cons, List.append_assoc,
            List.singleton_append]
      rcases rest with _ | ⟨prn, _ | ⟨elevation, _ | ⟨azimuth, _ | ⟨snr, rest⟩⟩⟩⟩
      · simp [reports, List.take_of_length_le hbuffer]
      · simp [reports, List.take_of_length_le hbuffer]
      · simp [reports, List.take_of_length_le hbuffer]
      · exact hround ⟨prn, elevation, azimuth, none⟩ [] rfl rfl (by simp)
      · exact hround ⟨prn, elevation, azimuth, some snr⟩ (reports rest) rfl rfl (by simp)
    · have hfull : kMaxGsvSatellites = buffer.length := by omega
      rw [hfull, List.take_left]

theorem length_fields_le (value : List UInt8) : (fields value).length ≤ value.length + 1 := by
  unfold fields
  induction value with
  | nil => exact le_refl 1
  | cons b value ih =>
    rcases eq_or_ne b comma with rfl | hb
    · rw [splitOn_cons_self, List.length_cons, List.length_cons]
      omega
    · rw [splitOn_cons_of_ne hb, List.length_modifyHead, List.length_cons]
      omega

/-- The sentence `number` of the `count` of a cycle of a system. -/
structure IsMessage (line : List UInt8) (system count number : ℕ) : Prop where
  talker : gsvSystemOf line = some system
  count : (csvField (withoutChecksum line) 1).map parseInt = some (count : ℤ)
  number : (csvField (withoutChecksum line) 2).map parseInt = some (number : ℤ)

theorem isMessage_iff (line : List UInt8) (system count number : ℕ) :
    IsMessage line system count number ↔ gsvSystemOf line = some system ∧
      (csvField (withoutChecksum line) 1).map parseInt = some (count : ℤ) ∧
        (csvField (withoutChecksum line) 2).map parseInt = some (number : ℤ) :=
  ⟨fun ⟨h1, h2, h3⟩ => ⟨h1, h2, h3⟩, fun ⟨h1, h2, h3⟩ => ⟨h1, h2, h3⟩⟩

instance (line : List UInt8) (system count number : ℕ) : Decidable (IsMessage line system count number) :=
  decidable_of_iff' _ (isMessage_iff line system count number)

/-- A sentence of a cycle, its satellites known. -/
def receive (s : SurveyManager) (system count number : ℕ) (satellites : List SatelliteInfo) :
    SurveyManager :=
  let s := if number = 1 ∨ system ≠ s.gsvSystem then { s with gsvBuffer := [], gsvSystem := system } else s
  let s := { s with gsvBuffer := (s.gsvBuffer ++ satellites).take kMaxGsvSatellites }
  if number = count then s.merge system else s

theorem not_gsa_of_gsv {line : List UInt8} {system : ℕ} (h : gsvSystemOf line = some system) :
    ¬ ascii "$GNGSA" <+: line := by
  intro hgsa
  have hdiff : ∀ head : List UInt8, head <+: line → head.length = 6 → head = ascii "$GNGSA" := by
    intro head hhead hlength
    have hle := List.prefix_of_prefix_length_le hhead hgsa (by rw [hlength]; decide)
    exact hle.eq_of_length (by rw [hlength]; decide)
  unfold gsvSystemOf at h
  split_ifs at h with h1 h2 h3 h4
  · exact absurd (hdiff _ h1 (by decide)) (by decide)
  · exact absurd (hdiff _ h2 (by decide)) (by decide)
  · exact absurd (hdiff _ h3 (by decide)) (by decide)
  · exact absurd (hdiff _ h4 (by decide)) (by decide)

theorem parseLine_message {s : SurveyManager} {line : List UInt8} {system count number : ℕ}
    (h : IsMessage line system count number) (hcount : 0 < count) (hnumber : 0 < number)
    (hroom : s.gsvBuffer.length ≤ kMaxGsvSatellites) :
    s.parseLine line = s.receive system count number ((reported line).map (entry system)) := by
  obtain ⟨countField, hcountField, hcountInt⟩ := Option.map_eq_some_iff.mp h.count
  obtain ⟨numberField, hnumberField, hnumberInt⟩ := Option.map_eq_some_iff.mp h.number
  have hshort : ((fields (withoutChecksum line)).drop 4).length < (withoutChecksum line).length + 1 := by
    have hle := length_fields_le (withoutChecksum line)
    rw [List.length_drop]
    omega
  have hone : ((number : ℤ) = 1 ∨ system ≠ s.gsvSystem) ↔ number = 1 ∨ system ≠ s.gsvSystem := by
    rw [Nat.cast_eq_one]
  unfold parseLine
  rw [if_neg (not_gsa_of_gsv h.talker), h.talker]
  unfold parseGsv receive
  dsimp only
  rw [hcountField, hnumberField]
  dsimp only
  rw [hcountInt, hnumberInt, if_neg (by omega), if_congr hone rfl rfl]
  have hnew : (if number = 1 ∨ system ≠ s.gsvSystem then { s with gsvBuffer := [], gsvSystem := system }
      else s).gsvBuffer.length ≤ kMaxGsvSatellites := by
    split_ifs
    · exact Nat.zero_le _
    · exact hroom
  generalize (if number = 1 ∨ system ≠ s.gsvSystem then { s with gsvBuffer := [], gsvSystem := system }
    else s) = t at hnew ⊢
  rw [collect_eq _ system _ 4 _ hshort hnew]
  by_cases hlast : number = count
  · rw [if_neg (not_not.mpr (Nat.cast_inj.mpr hlast)), if_pos hlast]
    rfl
  · rw [if_pos (Nat.cast_inj.not.mpr hlast), if_neg hlast]
    rfl

/-! ### The list -/

theorem entries_append (system : ℕ) (s : SurveyManager) (l l' : List SatelliteInfo) :
    ({ s with satelliteList := l ++ l' } : SurveyManager).entries system =
      l.filter (·.system = system) ++ l'.filter (·.system = system) := List.filter_append _ _

theorem entries_merge {s : SurveyManager} {system : ℕ} (h : ∀ e ∈ s.gsvBuffer, e.system = system) :
    (s.merge system).entries system =
      s.gsvBuffer.take (kMaxSatellites - (s.others system).length) := by
  unfold merge
  rw [entries_append]
  have hnone : (s.others system).filter (fun e => decide (e.system = system)) = [] := by
    unfold others
    simp [List.filter_filter]
  rw [hnone, List.nil_append, List.filter_eq_self]
  exact fun e he => decide_eq_true (h e (List.mem_of_mem_take he))

theorem entries_merge_of_ne {s : SurveyManager} {system other : ℕ} (hne : other ≠ system)
    (h : ∀ e ∈ s.gsvBuffer, e.system = system) : (s.merge system).entries other = s.entries other := by
  unfold merge
  rw [entries_append]
  have hnone : (s.gsvBuffer.take (kMaxSatellites - (s.others system).length)).filter
      (fun e => decide (e.system = other)) = [] := by
    rw [List.filter_eq_nil_iff]
    intro e he
    rw [h e (List.mem_of_mem_take he), decide_eq_true_eq]
    exact fun heq => hne heq.symm
  rw [hnone, List.append_nil]
  unfold others entries
  rw [List.filter_filter]
  refine List.filter_congr fun e _ => ?_
  by_cases he : e.system = other
  · simp [he, hne]
  · simp [he]

theorem others_merge {s : SurveyManager} {system : ℕ} (h : ∀ e ∈ s.gsvBuffer, e.system = system) :
    (s.merge system).others system = s.others system := by
  have hnone : (s.gsvBuffer.take (kMaxSatellites - (s.others system).length)).filter
      (fun e => decide (e.system ≠ system)) = [] := by
    rw [List.filter_eq_nil_iff]
    intro e he
    simp [h e (List.mem_of_mem_take he)]
  unfold merge others at hnone ⊢
  rw [List.filter_append, hnone, List.append_nil, List.filter_filter]
  simp

/-- The members are within their limits, and the buffer is of one system. -/
structure Bounded (s : SurveyManager) : Prop where
  system : ∀ e ∈ s.gsvBuffer, e.system = s.gsvSystem
  room : s.gsvBuffer.length ≤ kMaxGsvSatellites
  total : s.satelliteList.length ≤ kMaxSatellites
  perSystem : ∀ system, (s.entries system).length ≤ kMaxGsvSatellites

theorem bounded_start : Bounded start where
  system := by simp [start]
  room := Nat.zero_le _
  total := Nat.zero_le _
  perSystem _ := Nat.zero_le _

theorem Bounded.merge {s : SurveyManager} (hs : Bounded s) : Bounded (s.merge s.gsvSystem) where
  system := hs.system
  room := hs.room
  total := by
    have hothers : (s.others s.gsvSystem).length ≤ kMaxSatellites :=
      (List.length_filter_le _ _).trans hs.total
    unfold SurveyManager.merge
    rw [List.length_append, List.length_take]
    omega
  perSystem system := by
    rcases eq_or_ne system s.gsvSystem with rfl | hne
    · rw [entries_merge hs.system, List.length_take]
      have hroom := hs.room
      omega
    · rw [entries_merge_of_ne hne hs.system]
      exact hs.perSystem system

/-- The buffer with the satellites of a sentence in it. -/
def fill (s : SurveyManager) (system number : ℕ) (satellites : List SatelliteInfo) : SurveyManager :=
  { s with
    gsvBuffer := ((if number = 1 ∨ system ≠ s.gsvSystem then [] else s.gsvBuffer) ++ satellites).take
      kMaxGsvSatellites
    gsvSystem := system }

theorem receive_eq (s : SurveyManager) (system count number : ℕ) (satellites : List SatelliteInfo) :
    s.receive system count number satellites =
      if number = count then (s.fill system number satellites).merge system
      else s.fill system number satellites := by
  unfold receive fill
  by_cases hnew : number = 1 ∨ system ≠ s.gsvSystem
  · rw [if_pos hnew, if_pos hnew]
  · have hsystem : s.gsvSystem = system := by
      by_contra hne
      exact hnew (Or.inr fun heq => hne heq.symm)
    rw [if_neg hnew, if_neg hnew, ← hsystem]

theorem Bounded.fill {s : SurveyManager} (hs : Bounded s) {system : ℕ} (number : ℕ)
    {satellites : List SatelliteInfo} (h : ∀ e ∈ satellites, e.system = system) :
    Bounded (s.fill system number satellites) where
  system e he := by
    rcases List.mem_append.mp (List.mem_of_mem_take he) with he | he
    · split_ifs at he with hnew
      · cases he
      · rw [hs.system e he]
        by_contra hne
        exact hnew (Or.inr fun heq => hne heq.symm)
    · exact h e he
  room := List.length_take_le _ _
  total := hs.total
  perSystem := hs.perSystem

/-- **The limits are kept by every sentence of a cycle.** -/
theorem Bounded.receive {s : SurveyManager} (hs : Bounded s) {system : ℕ} (count number : ℕ)
    {satellites : List SatelliteInfo} (h : ∀ e ∈ satellites, e.system = system) :
    Bounded (s.receive system count number satellites) := by
  rw [receive_eq]
  split_ifs
  · exact (hs.fill number h).merge
  · exact hs.fill number h

end SurveyManager

end GpsBase.Survey.Satellites
