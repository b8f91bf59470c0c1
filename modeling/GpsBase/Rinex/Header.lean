import GpsBase.Rinex.Logger
import GpsBase.Rinex.Validator

/-! # The header as the validator reads it

Every record of the header is one line, `ANT # / TYPE` apart, whose antenna type comes from the
settings and may hold any bytes. The other records do not end the header, declare the systems of the
file, and hold what the validator asks for. -/

namespace GpsBase.Rinex.Header

open GpsBase.Lib.Binary64 GpsBase.Lib.Binary64.Float64 GpsBase.Lib.CText GpsBase.Lib.Lines
open GpsBase.Rinex.SatId GpsBase.Rinex.Logger GpsBase.Rinex.Logger.RinexLogger
open GpsBase.Rinex.Validator

/-! ### Records by their bytes -/

/-- The bytes of `s` are those of printed numbers and of `L`. -/
def Over (L s : List UInt8) : Prop := ∀ b ∈ s, numeric b = true ∨ b ∈ L

theorem over_self (L : List UInt8) : Over L L := fun _ h => Or.inr h

theorem over_numeric {s : List UInt8} (h : ∀ b ∈ s, numeric b = true) (L : List UInt8) : Over L s :=
  fun b hb => Or.inl (h b hb)

theorem Over.append {L s t : List UInt8} (hs : Over L s) (ht : Over L t) : Over L (s ++ t) :=
  fun b hb => (List.mem_append.mp hb).elim (hs b) (ht b)

theorem Over.mono {L M s : List UInt8} (h : Over L s) (hLM : L ⊆ M) : Over M s :=
  fun b hb => (h b hb).imp_right fun hb => hLM hb

theorem Over.text {L s : List UInt8} (h : Over L s) (width : ℕ) : Over L (text width s) :=
  h.append fun b hb => Or.inl (by rw [List.eq_of_mem_replicate hb]; decide)

theorem Over.take {L s : List UInt8} (h : Over L s) (n : ℕ) : Over L (s.take n) :=
  fun b hb => h b (List.mem_of_mem_take hb)

/-- A record that is one line, does not end the header, and declares `sys`. -/
structure LineRecord (r : List UInt8) (sys : Option UInt8) : Prop where
  line : ∃ s, Inline s ∧ r = s ++ [lf]
  noEnd : ¬ ascii "END OF HEADER" <:+: r
  declares : declares r = sys

theorem not_infix_of_over {L s p : List UInt8} (h : Over L s) (hp : ∃ b ∈ p, numeric b = false ∧ b ∉ L)
    (hlf : lf ∉ p) : ¬ p <:+: s ++ [lf] := by
  obtain ⟨b, hb, hnum, hL⟩ := hp
  intro hin
  rcases List.mem_append.mp (hin.subset hb) with hs | hs
  · rcases h b hs with hs | hs
    · rw [hnum] at hs
      cases hs
    · exact hL hs
  · rw [List.mem_singleton.mp hs] at hb
    exact hlf hb

/-- A record with such bytes, none of them peculiar to the patterns, is a line that neither ends the
header nor declares a system. -/
theorem lineRecord_of_over {L s : List UInt8} (h : Over L s) (hL : Inline L)
    (hend : ∃ b ∈ ascii "END OF HEADER", numeric b = false ∧ b ∉ L)
    (hsys : ∃ b ∈ ascii "SYS / # / OBS TYPES", numeric b = false ∧ b ∉ L) :
    LineRecord (s ++ [lf]) none := by
  refine ⟨⟨s, ⟨fun hm => ?_, fun hm => ?_⟩, rfl⟩, not_infix_of_over h hend (by decide), ?_⟩
  · exact (h lf hm).elim (by decide) hL.lf
  · exact (h cr hm).elim (by decide) hL.cr
  · unfold Validator.declares
    rw [if_neg (not_infix_of_over h hsys (by decide))]

/-! ### The records -/

theorem over_texts :
    Over [] (ascii "                  ") ∧ Over [] (text 50 []) ∧
      Over (ascii "GPS") (ascii "     GPS         ") ∧
      ∀ s ∈ ["GPS_BASE", "ESP32_RTK", " ", " UTC", "PGM / RUN BY / DATE"],
        Over (ascii "GPS_BASE ESP32_RTK UTC PGM / RUN BY / DATE") (ascii s) := by
  unfold Over
  decide +kernel

theorem over_lengths (x y z : Float64) (label : String) :
    Over (ascii label) (padFixed 14 4 x ++ padFixed 14 4 y ++ padFixed 14 4 z ++
      ascii "                  " ++ ascii label) :=
  ((((over_numeric (numeric_padFixed _ _ _) _).append (over_numeric (numeric_padFixed _ _ _) _)).append
    (over_numeric (numeric_padFixed _ _ _) _)).append
      (over_texts.1.mono (List.nil_subset _))).append (over_self _)

theorem over_time (t : Calendar) (label : String) :
    Over (ascii "GPS" ++ ascii label) (padInt 6 t.Y.toInt ++ padInt 6 t.Mo.toInt ++
      padInt 6 t.D.toInt ++ padInt 6 t.h.toInt ++ padInt 6 t.m.toInt ++ padFixed 13 7 t.s ++
      ascii "     GPS         " ++ ascii label) := by
  have hint : ∀ n : ℤ, Over (ascii "GPS" ++ ascii label) (padInt 6 n) :=
    fun n => over_numeric (numeric_padInt 6 n) _
  have hgps : Over (ascii "GPS") (ascii "     GPS         ") := over_texts.2.2.1
  exact ((((((((hint _).append (hint _)).append (hint _)).append (hint _)).append (hint _)).append
    (over_numeric (numeric_padFixed _ _ _) _)).append
      (hgps.mono (List.subset_append_left _ _)))).append
        ((over_self _).mono (List.subset_append_right _ _))

/-- The records before `ANT # / TYPE`. -/
def recordsBefore (c : Clib) (t : Calendar) : List (List UInt8) :=
  [ascii "     3.03           OBSERVATION DATA    M                   RINEX VERSION / TYPE" ++ [lf],
    text 20 (ascii "GPS_BASE") ++ text 20 (ascii "ESP32_RTK") ++ text 20
      ((zeroInt 4 t.Y.toInt ++ zeroInt 2 t.Mo.toInt ++ zeroInt 2 t.D.toInt ++ ascii " " ++
        zeroInt 2 t.h.toInt ++ zeroInt 2 t.m.toInt ++ zeroInt 2 (t.second c) ++ ascii " UTC").take 20) ++
      ascii "PGM / RUN BY / DATE" ++ [lf],
    text 60 (ascii "GPS_BASE_STATION") ++ ascii "MARKER NAME      " ++ [lf],
    text 60 (ascii "GEODETIC") ++ ascii "MARKER TYPE      " ++ [lf],
    text 20 (ascii "UNKNOWN") ++ text 40 (ascii "UNKNOWN") ++ ascii "OBSERVER / AGENCY" ++ [lf],
    text 20 (ascii "0000") ++ text 20 (ascii "UM980") ++ text 20 (ascii "UNICORE") ++
      ascii "REC # / TYPE / VERS" ++ [lf]]

/-- The records behind it, up to `TIME OF FIRST OBS`. -/
def recordsAfter (l : RinexLogger) (t : Calendar) : List (List UInt8) :=
  [lengthsRecord l.ecefX l.ecefY l.ecefZ "APPROX POSITION XYZ",
    lengthsRecord l.antDeltaH (ofInt 0) (ofInt 0) "ANTENNA: DELTA H/E/N"] ++
  (systems.filter fun d => hasSystem l.presentMask d.sys).map systemRecord ++
  [padFixed 10 3 (ofInt kEpochInterval) ++ text 50 [] ++ ascii "INTERVAL" ++ [lf],
    timeRecord t "TIME OF FIRST OBS"]

theorem headerRecords_eq (c : Clib) (l : RinexLogger) (t : Calendar) :
    headerRecords c l t =
      recordsBefore c t ++ antRecord (antType l.antModel l.antRadome) :: recordsAfter l t := rfl

theorem lineRecord_literal {s : List UInt8} (h : Inline s ∧ ¬ ascii "END OF HEADER" <:+: s ++ [lf] ∧
    declares (s ++ [lf]) = none) : LineRecord (s ++ [lf]) none := ⟨⟨s, h.1, rfl⟩, h.2.1, h.2.2⟩

theorem over_date (c : Clib) (t : Calendar) : Over (ascii "GPS_BASE ESP32_RTK UTC PGM / RUN BY / DATE")
    (text 20 (ascii "GPS_BASE") ++ text 20 (ascii "ESP32_RTK") ++ text 20
      ((zeroInt 4 t.Y.toInt ++ zeroInt 2 t.Mo.toInt ++ zeroInt 2 t.D.toInt ++ ascii " " ++
        zeroInt 2 t.h.toInt ++ zeroInt 2 t.m.toInt ++ zeroInt 2 (t.second c) ++ ascii " UTC").take 20) ++
      ascii "PGM / RUN BY / DATE") := by
  have hint : ∀ (w : ℕ) (n : ℤ), Over (ascii "GPS_BASE ESP32_RTK UTC PGM / RUN BY / DATE") (zeroInt w n) :=
    fun w n => over_numeric (numeric_zeroInt w n) _
  have hlit : ∀ s ∈ ["GPS_BASE", "ESP32_RTK", " ", " UTC", "PGM / RUN BY / DATE"],
      Over (ascii "GPS_BASE ESP32_RTK UTC PGM / RUN BY / DATE") (ascii s) := over_texts.2.2.2
  refine ((Over.append ((hlit _ (by decide)).text 20) ((hlit _ (by decide)).text 20)).append
    (Over.text (Over.take ?_ 20) 20)).append (hlit _ (by decide))
  exact (((((((hint 4 _).append (hint 2 _)).append (hint 2 _)).append (hlit _ (by decide))).append
    (hint 2 _)).append (hint 2 _)).append (hint 2 _)).append (hlit _ (by decide))

theorem literal_records :
    ∀ s ∈ [ascii "     3.03           OBSERVATION DATA    M                   RINEX VERSION / TYPE",
        text 60 (ascii "GPS_BASE_STATION") ++ ascii "MARKER NAME      ",
        text 60 (ascii "GEODETIC") ++ ascii "MARKER TYPE      ",
        text 20 (ascii "UNKNOWN") ++ text 40 (ascii "UNKNOWN") ++ ascii "OBSERVER / AGENCY",
        text 20 (ascii "0000") ++ text 20 (ascii "UM980") ++ text 20 (ascii "UNICORE") ++
          ascii "REC # / TYPE / VERS"],
      (Inline s ∧ ¬ ascii "END OF HEADER" <:+: s ++ [lf] ∧ declares (s ++ [lf]) = none) ∧
        ¬ ascii "INTERVAL" <:+: s ++ [lf] := by
  decide +kernel

/-- **The records before the antenna** are lines that declare nothing and hold no interval. -/
theorem recordsBefore_spec (c : Clib) (t : Calendar) :
    ∀ r ∈ recordsBefore c t, LineRecord r none ∧ ¬ ascii "INTERVAL" <:+: r := by
  have hlit := fun s hs => (literal_records s hs).imp_left lineRecord_literal
  intro r hr
  simp only [recordsBefore, List.mem_cons, List.not_mem_nil, or_false] at hr
  rcases hr with rfl | rfl | rfl | rfl | rfl | rfl
  · exact hlit _ (by simp)
  · exact ⟨lineRecord_of_over (over_date c t) (by decide) (by decide) (by decide),
      not_infix_of_over (over_date c t) (by decide) (by decide)⟩
  · exact hlit _ (by simp)
  · exact hlit _ (by simp)
  · exact hlit _ (by simp)
  · exact hlit _ (by simp)

theorem lineRecord_system : ∀ d ∈ systems, LineRecord (systemRecord d) (some d.code) := by
  have h : ∀ d ∈ systems, (Inline (text 60 (d.code :: ascii "  " ++ padInt 3 d.nobs ++ ascii " " ++ d.obs) ++
      ascii "SYS / # / OBS TYPES")) ∧ ¬ ascii "END OF HEADER" <:+: systemRecord d ∧
      declares (systemRecord d) = some d.code := by
    decide +kernel
  exact fun d hd => ⟨⟨_, (h d hd).1, rfl⟩, (h d hd).2.1, (h d hd).2.2⟩

theorem lineRecord_interval : LineRecord
    (padFixed 10 3 (ofInt kEpochInterval) ++ text 50 [] ++ ascii "INTERVAL" ++ [lf]) none :=
  lineRecord_of_over (L := ascii "INTERVAL") (((over_numeric (numeric_padFixed _ _ _) _).append
    (over_texts.2.1.mono (List.nil_subset _))).append (over_self _)) (by decide) (by decide) (by decide)

theorem lineRecord_firstObs (t : Calendar) : LineRecord (timeRecord t "TIME OF FIRST OBS") none :=
  lineRecord_of_over (over_time t _) (by decide) (by decide) (by decide)

/-- **The records behind the antenna** are lines, hold what the validator asks for, and declare the
systems of the file. -/
theorem recordsAfter_spec (l : RinexLogger) (t : Calendar) :
    (∀ r ∈ recordsAfter l t, ∃ sys, LineRecord r sys) ∧
      (∃ r ∈ recordsAfter l t, ascii "TIME OF FIRST OBS" <:+: r) ∧
      (∃ r ∈ recordsAfter l t, ascii "INTERVAL" <:+: r) ∧
      (recordsAfter l t).filterMap declares =
        (systems.filter fun d => hasSystem l.presentMask d.sys).map (·.code) := by
  have happrox : LineRecord (lengthsRecord l.ecefX l.ecefY l.ecefZ "APPROX POSITION XYZ") none :=
    lineRecord_of_over (over_lengths _ _ _ _) (by decide) (by decide) (by decide)
  have hdelta : LineRecord
      (lengthsRecord l.antDeltaH (ofInt 0) (ofInt 0) "ANTENNA: DELTA H/E/N") none :=
    lineRecord_of_over (over_lengths _ _ _ _) (by decide) (by decide) (by decide)
  have hsys : ∀ d ∈ systems.filter fun d => hasSystem l.presentMask d.sys,
      LineRecord (systemRecord d) (some d.code) :=
    fun d hd => lineRecord_system d (List.mem_of_mem_filter hd)
  refine ⟨fun r hr => ?_, ?_, ?_, ?_⟩
  · simp only [recordsAfter, List.mem_append, List.mem_cons, List.not_mem_nil, or_false,
      List.mem_map] at hr
    rcases hr with ((rfl | rfl) | ⟨d, hd, rfl⟩) | (rfl | rfl)
    · exact ⟨_, happrox⟩
    · exact ⟨_, hdelta⟩
    · exact ⟨_, hsys d hd⟩
    · exact ⟨_, lineRecord_interval⟩
    · exact ⟨_, lineRecord_firstObs t⟩
  · refine ⟨timeRecord t "TIME OF FIRST OBS", by simp [recordsAfter], ?_⟩
    exact (List.suffix_append _ _).isInfix.trans (List.prefix_append _ _).isInfix
  · refine ⟨padFixed 10 3 (ofInt kEpochInterval) ++ text 50 [] ++ ascii "INTERVAL" ++ [lf],
      by simp [recordsAfter], ?_⟩
    exact (List.suffix_append _ _).isInfix.trans (List.prefix_append _ _).isInfix
  · have hmap : ∀ ds : List SystemDef, (∀ d ∈ ds, LineRecord (systemRecord d) (some d.code)) →
        (ds.map systemRecord).filterMap declares = ds.map (·.code) := by
      intro ds
      induction ds with
      | nil => exact fun _ => rfl
      | cons d ds ih =>
        intro h
        rw [List.map_cons, List.filterMap_cons, (h d List.mem_cons_self).declares,
          ih fun d hd => h d (List.mem_cons_of_mem _ hd)]
        rfl
    unfold recordsAfter
    rw [List.filterMap_append, List.filterMap_append, hmap _ hsys]
    simp only [List.filterMap_cons, happrox.declares, hdelta.declares, lineRecord_interval.declares,
      (lineRecord_firstObs t).declares, List.filterMap_nil, List.nil_append, List.append_nil]

/-! ### The antenna -/

/-- The bytes before and behind the antenna type. -/
def antBefore : List UInt8 := text 20 (ascii "0000")

def antAfter : List UInt8 := text 20 [] ++ ascii "ANT # / TYPE     " ++ [lf]

/-- An antenna type that neither ends the header nor declares a system: it does not hold
`END OF HEADER`, and is no line end with `SYS / # / OBS TYPES` behind it. -/
def Harmless (a : List UInt8) : Prop :=
  ¬ ascii "END OF HEADER" <:+: a ∧ a ≠ lf :: ascii "SYS / # / OBS TYPES" ∧
    a ≠ cr :: ascii "SYS / # / OBS TYPES"

instance (a : List UInt8) : Decidable (Harmless a) := by
  unfold Harmless
  infer_instance

theorem length_antType (model radome : List UInt8) : (antType model radome).length = 20 := by
  unfold antType text
  rw [List.length_append, length_padRight, length_padRight, List.length_take, List.length_take]
  omega

/-- A pattern that is in no part of the record but the antenna type, and does not overlap the others. -/
def Apart (p : List UInt8) : Prop :=
  (Inline p ∧ p ≠ []) ∧ (∀ q ∈ p.inits, q ≠ [] → ¬ q <:+ antBefore) ∧
    (∀ q ∈ p.tails, q ≠ [] → ¬ q <+: antAfter) ∧ ¬ p <:+: antBefore ∧ ¬ p <:+: antAfter

theorem around_ant :
    (∀ p ∈ [ascii "END OF HEADER", ascii "INTERVAL", ascii "SYS / # / OBS TYPES"], Apart p) ∧
      (∀ q ∈ (ascii "INTERVAL").inits, q ≠ [] → ¬ q <:+ ascii "END OF HEADER") ∧
      Inline antBefore ∧ Inline (text 20 [] ++ ascii "ANT # / TYPE     ") ∧
      antBefore = '0'.toUInt8 :: antBefore.tail := by
  unfold Apart
  decide +kernel

theorem infix_ant {p : List UInt8}
    (hp : p ∈ [ascii "END OF HEADER", ascii "INTERVAL", ascii "SYS / # / OBS TYPES"]) (a : List UInt8) :
    (∃ l ∈ readlines (antRecord a), p <:+: l) ↔ p <:+: a := by
  obtain ⟨⟨hline, hne⟩, hb, ha, hpb, hpa⟩ := around_ant.1 p hp
  exact (infix_iff_line hline hne _).trans (infix_field a hb ha hpb hpa)

theorem end_ant (a : List UInt8) :
    (∃ l ∈ readlines (antRecord a), ascii "END OF HEADER" <:+: l) ↔ ascii "END OF HEADER" <:+: a :=
  infix_ant (by simp) a

/-- An antenna type that ends the header leaves no room for an interval. -/
theorem interval_ant {a : List UInt8} (hlen : a.length = 20) (hend : ascii "END OF HEADER" <:+: a) :
    ∀ l ∈ readlines (antRecord a), ¬ ascii "INTERVAL" <:+: l := by
  intro l hl h
  have hin : ascii "INTERVAL" <:+: a :=
    (infix_ant (by simp) a).mp ⟨l, hl, h⟩
  have hle := length_add_le (by decide) around_ant.2.1 (by decide) (by decide) hend hin
  have h1 : (ascii "END OF HEADER").length = 13 := by decide
  have h2 : (ascii "INTERVAL").length = 8 := by decide
  omega

theorem declares_inline {a : List UInt8} (ha : Inline a) :
    (readlines (antRecord a)).filterMap declares = [] := by
  have hline : antRecord a = (antBefore ++ (a ++ (text 20 [] ++ ascii "ANT # / TYPE     "))) ++ [lf] := by
    unfold antRecord antBefore
    simp only [List.append_assoc]
  obtain ⟨hb, haft, hcons⟩ := around_ant.2.2
  rw [hline, readlines_line (hb.append (ha.append haft))]
  have hhead : ((antBefore ++ (a ++ (text 20 [] ++ ascii "ANT # / TYPE     "))) ++ [lf]).head? =
      some '0'.toUInt8 := by
    rw [hcons]
    rfl
  have hnone : declares ((antBefore ++ (a ++ (text 20 [] ++ ascii "ANT # / TYPE     "))) ++ [lf]) =
      none := by
    unfold Validator.declares
    rw [hhead]
    split_ifs <;> rfl
  rw [List.filterMap_cons, hnone]
  rfl

/-- An antenna type filled by the label of a system and a line end. -/
theorem declares_filled : ∀ x ∈ [lf, cr],
    (readlines (antRecord (ascii "SYS / # / OBS TYPES" ++ [x]))).filterMap declares = [] ∧
      (readlines (antRecord (x :: ascii "SYS / # / OBS TYPES"))).filterMap declares = ['S'.toUInt8] := by
  decide +kernel

theorem declares_ant {a : List UInt8} (hlen : a.length = 20) :
    (readlines (antRecord a)).filterMap declares =
      if a = lf :: ascii "SYS / # / OBS TYPES" ∨ a = cr :: ascii "SYS / # / OBS TYPES"
      then ['S'.toUInt8] else [] := by
  by_cases hin : ascii "SYS / # / OBS TYPES" <:+: a
  · obtain ⟨s, t, rfl⟩ := hin
    have hsys : (ascii "SYS / # / OBS TYPES").length = 19 := by decide
    rw [List.length_append, List.length_append, hsys] at hlen
    -- one more byte, which stands before or behind
    rcases s with _ | ⟨x, s⟩
    · obtain ⟨x, rfl⟩ := List.length_eq_one_iff.mp (show t.length = 1 by simp at hlen; omega)
      have hhead : ([] ++ ascii "SYS / # / OBS TYPES" ++ [x]).head? = some 83 := by
        have hsys : (ascii "SYS / # / OBS TYPES").head? = some 83 := by decide
        rw [List.nil_append, List.head?_append, hsys]
        rfl
      rw [if_neg (by
        rintro (h | h) <;> rw [h] at hhead <;> cases hhead)]
      by_cases hx : x = lf ∨ x = cr
      · exact (declares_filled x (by simpa using hx)).1
      · rw [not_or] at hx
        refine declares_inline (Inline.append (by decide) ⟨?_, ?_⟩)
        · simpa using Ne.symm hx.1
        · simpa using Ne.symm hx.2
    · have hs : s = [] := List.length_eq_zero_iff.mp (by simp at hlen; omega)
      have ht : t = [] := List.length_eq_zero_iff.mp (by simp at hlen; omega)
      subst hs ht
      rw [List.append_nil]
      by_cases hx : x = lf ∨ x = cr
      · rw [if_pos (by rcases hx with rfl | rfl <;> simp)]
        exact (declares_filled x (by simpa using hx)).2
      · rw [if_neg (by
          rintro (h | h)
          · exact hx (Or.inl (List.cons.inj h).1)
          · exact hx (Or.inr (List.cons.inj h).1))]
        rw [not_or] at hx
        refine declares_inline (Inline.append (s := [x]) ⟨?_, ?_⟩ (by decide))
        · simpa using Ne.symm hx.1
        · simpa using Ne.symm hx.2
  · rw [if_neg (by
      rintro (rfl | rfl)
      · exact hin (List.suffix_cons _ _).isInfix
      · exact hin (List.suffix_cons _ _).isInfix)]
    refine List.filterMap_eq_nil_iff.mpr fun l hl => ?_
    have hno : ¬ ascii "SYS / # / OBS TYPES" <:+: l := fun h =>
      hin ((infix_ant (by simp) a).mp ⟨l, hl, h⟩)
    unfold Validator.declares
    rw [if_neg hno]

/-! ### The file -/

/-- A byte of the region in front of `END OF HEADER`, which the records of the last observation are
written over. -/
def SlotByte (b : UInt8) : Prop := numeric b = true ∨ b ∈ ascii "GPS TIME OF LAST OBS" ∨ b = lf

theorem not_infix_of_slot {p : List UInt8} {b : UInt8} (hb : b ∈ p) (hnum : numeric b = false)
    (hlast : b ∉ ascii "GPS TIME OF LAST OBS") (hlf : b ≠ lf) {s : List UInt8}
    (hs : ∀ b ∈ s, SlotByte b) : ¬ p <:+: s := by
  intro hin
  rcases hs b (hin.subset hb) with h | h | h
  · rw [hnum] at h
    cases h
  · exact hlast h
  · exact hlf h

/-- The lines of the slot and of the end of the header: they end the header, and declare nothing. -/
theorem readlines_slot {z : List UInt8} (hz : ∀ b ∈ z, SlotByte b) :
    ∃ ls e, readlines (z ++ (ascii "END OF HEADER    " ++ [lf])) = ls ++ [e] ∧
      (∀ l ∈ ls, ¬ ascii "END OF HEADER" <:+: l) ∧ ascii "END OF HEADER" <:+: e ∧
      (ls ++ [e]).filterMap declares = [] := by
  have hcr : cr ∉ z := fun h => by
    have hno : ¬ SlotByte cr := by
      unfold SlotByte
      decide
    exact hno (hz cr h)
  obtain ⟨ls, l, hread, hl, hls⟩ := readlines_last hcr (e := ascii "END OF HEADER    ") (by decide)
  have hslot : ∀ m ∈ ls, ∀ b ∈ m, SlotByte b := fun m hm b hb => hz b (hls m hm b hb)
  refine ⟨ls, _, hread, fun m hm => ?_, ?_, ?_⟩
  · exact not_infix_of_slot (b := 'N'.toUInt8) (by decide) (by decide) (by decide) (by decide)
      (hslot m hm)
  · have hend : ascii "END OF HEADER" <+: ascii "END OF HEADER    " ++ [lf] := by decide
    exact hend.isInfix.trans (List.suffix_append _ _).isInfix
  · refine List.filterMap_eq_nil_iff.mpr fun m hm => ?_
    have hno : ¬ ascii "SYS / # / OBS TYPES" <:+: m := by
      rcases List.mem_append.mp hm with hm | hm
      · exact not_infix_of_slot (b := 'Y'.toUInt8) (by decide) (by decide) (by decide) (by decide)
          (hslot m hm)
      · rw [List.mem_singleton.mp hm]
        intro hin
        have hY : 'Y'.toUInt8 ∈ l ++ (ascii "END OF HEADER    " ++ [lf]) := hin.subset (by decide)
        rcases List.mem_append.mp hY with hY | hY
        · have hno : ¬ SlotByte 'Y'.toUInt8 := by
            unfold SlotByte
            decide
          exact hno (hz _ (hl _ hY))
        · exact absurd hY (by decide)
    unfold Validator.declares
    rw [if_neg hno]

theorem readlines_file (c : Clib) (l : RinexLogger) (t : Calendar) {z : List UInt8}
    (hz : ∀ b ∈ z, SlotByte b) {es : List (List UInt8 × List (List UInt8))}
    (hes : ∀ e ∈ es, LegalEpoch e) :
    ∃ ls e, readlines ((headerRecords c l t).flatten ++ (z ++ (ascii "END OF HEADER    " ++
        ([lf] ++ (es.flatMap epochLines).flatten)))) =
      recordsBefore c t ++ (readlines (antRecord (antType l.antModel l.antRadome)) ++
        (recordsAfter l t ++ (ls ++ e :: es.flatMap epochLines))) ∧
      (∀ l ∈ ls, ¬ ascii "END OF HEADER" <:+: l) ∧ ascii "END OF HEADER" <:+: e ∧
      (ls ++ [e]).filterMap declares = [] := by
  obtain ⟨ls, e, hread, hls, he, hdecl⟩ := readlines_slot hz
  refine ⟨ls, e, ?_, hls, he, hdecl⟩
  have hbody : ∀ l ∈ es.flatMap epochLines, ∃ s, Inline s ∧ l = s ++ [lf] := by
    intro l hl
    obtain ⟨e, he, hl⟩ := List.mem_flatMap.mp hl
    rcases List.mem_cons.mp hl with rfl | hl
    · exact ⟨_, (hes e he).inline, rfl⟩
    · obtain ⟨r, hr, rfl⟩ := List.mem_map.mp hl
      exact ⟨_, ((hes e he).rows r hr).inline, rfl⟩
  have hend : ∀ rest, readlines (z ++ (ascii "END OF HEADER    " ++ ([lf] ++ rest))) =
      ls ++ e :: readlines rest := fun rest => by
    rw [← List.append_assoc, List.singleton_append, readlines_append, List.append_assoc, hread,
      List.append_assoc, List.singleton_append]
  have hant : ∀ rest, readlines (antRecord (antType l.antModel l.antRadome) ++ rest) =
      readlines (antRecord (antType l.antModel l.antRadome)) ++ readlines rest := fun rest => by
    have hline : antRecord (antType l.antModel l.antRadome) = text 20 (ascii "0000") ++
        (antType l.antModel l.antRadome ++ (text 20 [] ++ ascii "ANT # / TYPE     ")) ++ [lf] := by
      unfold antRecord
      simp only [List.append_assoc]
    rw [hline, List.append_assoc, List.singleton_append, readlines_append]
  have hflat := readlines_lines hbody []
  rw [List.append_nil, show readlines [] = [] from rfl, List.append_nil] at hflat
  rw [headerRecords_eq, List.flatten_append, List.flatten_cons, List.append_assoc, List.append_assoc,
    readlines_lines fun r hr => (recordsBefore_spec c t r hr).1.line, hant,
    readlines_lines fun r hr => ((recordsAfter_spec l t).1 r hr).choose_spec.line, hend, hflat]

/-- **What decides whether a file is valid.** The epochs are legal and hold the systems the header
declares; then it is the antenna type. -/
theorem validate_file (c : Clib) (l : RinexLogger) (t : Calendar) {z : List UInt8}
    (hz : ∀ b ∈ z, SlotByte b) {es : List (List UInt8 × List (List UInt8))}
    (hes : ∀ e ∈ es, LegalEpoch e) (hne : es ≠ [])
    (hsys : ∀ code, (∃ d ∈ systems, hasSystem l.presentMask d.sys = true ∧ d.code = code) ↔
      ∃ e ∈ es, ∃ r ∈ e.2, r.head? = some code) :
    validate ((headerRecords c l t).flatten ++ (z ++ (ascii "END OF HEADER    " ++
        ([lf] ++ (es.flatMap epochLines).flatten)))) = [] ↔
      Harmless (antType l.antModel l.antRadome) := by
  obtain ⟨ls, e, hread, hls, he, hdecl⟩ := readlines_file c l t hz hes
  have hlen := length_antType l.antModel l.antRadome
  unfold validate
  rw [hread]
  generalize antType l.antModel l.antRadome = a at hlen ⊢
  have hbefore : ∀ l ∈ recordsBefore c t, ¬ ascii "END OF HEADER" <:+: l :=
    fun l hl => (recordsBefore_spec c t l hl).1.noEnd
  obtain ⟨hafter, hfirst, hinterval, hdeclared⟩ := recordsAfter_spec l t
  by_cases hend : ascii "END OF HEADER" <:+: a
  · -- the header ends in the lines of the antenna, before the interval
    refine iff_of_false ?_ fun h => h.1 hend
    obtain ⟨x, hx, hxend⟩ := (end_ant a).mpr hend
    obtain ⟨y, hy⟩ := Option.isSome_iff_exists.mp (List.find?_isSome.mpr
      ⟨x, hx, decide_eq_true hxend⟩ :
        ((readlines (antRecord a)).find? fun l => decide (ascii "END OF HEADER" <:+: l)).isSome = true)
    obtain ⟨hyend, pre, post, hsplit, hpre⟩ := List.find?_eq_some_iff_append.mp hy
    have hsub : ∀ m ∈ pre ++ [y], m ∈ readlines (antRecord a) := fun m hm => by
      rw [hsplit]
      rcases List.mem_append.mp hm with hm | hm
      · exact List.mem_append_left _ hm
      · rw [List.mem_singleton.mp hm]
        exact List.mem_append_right _ List.mem_cons_self
    rw [hsplit, List.append_assoc, List.cons_append, ← List.append_assoc]
    refine validateLines_ne_nil (fun m hm => ?_) (of_decide_eq_true hyend) fun m hm => ?_
    · rcases List.mem_append.mp hm with hm | hm
      · exact hbefore m hm
      · simpa using hpre m hm
    · rw [List.append_assoc] at hm
      rcases List.mem_append.mp hm with hm | hm
      · exact (recordsBefore_spec c t m hm).2
      · exact interval_ant hlen hend m (hsub m hm)
  · have hall : ∀ m ∈ recordsBefore c t ++ (readlines (antRecord a) ++ (recordsAfter l t ++ ls)),
        ¬ ascii "END OF HEADER" <:+: m := by
      intro m hm
      simp only [List.mem_append] at hm
      rcases hm with hm | hm | hm | hm
      · exact hbefore m hm
      · exact fun h => hend ((end_ant a).mp ⟨m, hm, h⟩)
      · exact (hafter m hm).choose_spec.noEnd
      · exact hls m hm
    have hlines : recordsBefore c t ++ (readlines (antRecord a) ++ (recordsAfter l t ++
        (ls ++ e :: es.flatMap epochLines))) =
        (recordsBefore c t ++ (readlines (antRecord a) ++ (recordsAfter l t ++ ls))) ++
          e :: es.flatMap epochLines := by
      simp only [List.append_assoc]
    have hbeforeDecl : (recordsBefore c t).filterMap declares = [] :=
      List.filterMap_eq_nil_iff.mpr fun r hr => (recordsBefore_spec c t r hr).1.declares
    have hdecls : (recordsBefore c t ++ (readlines (antRecord a) ++ (recordsAfter l t ++ ls)) ++
        [e]).filterMap declares = (readlines (antRecord a)).filterMap declares ++
          (systems.filter fun d => hasSystem l.presentMask d.sys).map (·.code) := by
      rw [List.append_assoc, List.append_assoc, List.append_assoc, List.filterMap_append,
        List.filterMap_append, List.filterMap_append, hdecl, hbeforeDecl, hdeclared, List.nil_append,
        List.append_nil]
    rw [hlines, validateLines_eq_nil hall he hes, hdecls, declares_ant hlen]
    have hmem : ∀ r ∈ recordsAfter l t, r ∈ recordsBefore c t ++ (readlines (antRecord a) ++
        (recordsAfter l t ++ ls)) ++ [e] := fun r hr => by simp [hr]
    have hcodes : ∀ code, code ∈ (systems.filter fun d => hasSystem l.presentMask d.sys).map (·.code) ↔
        ∃ e ∈ es, ∃ r ∈ e.2, r.head? = some code := fun code => by
      rw [← hsys code, List.mem_map]
      simp only [List.mem_filter, and_assoc]
    constructor
    · rintro ⟨-, -, -, h⟩
      refine ⟨hend, not_or.mp fun hor => ?_⟩
      rw [if_pos hor] at h
      -- the system S is declared, and no satellite has it
      obtain ⟨d, hd, -, hcode⟩ := (hsys 'S'.toUInt8).mpr
        ((h 'S'.toUInt8).mp (List.mem_append_left _ (List.mem_singleton.mpr rfl)))
      have hno : ∀ d ∈ systems, d.code ≠ 'S'.toUInt8 := by decide
      exact hno d hd hcode
    · rintro ⟨-, h⟩
      rw [if_neg (not_or.mpr h), List.nil_append]
      obtain ⟨r, hr, hrf⟩ := hfirst
      obtain ⟨r', hr', hri⟩ := hinterval
      exact ⟨⟨r, hmem r hr, hrf⟩, ⟨r', hmem r' hr', hri⟩, hne, hcodes⟩

end GpsBase.Rinex.Header
