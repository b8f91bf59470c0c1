import GpsBase.Lib.Preference
import GpsBase.Rinex.Sessions
import Mathlib.Data.FinEnum

/-! # What a message observes

The list of satellites that `process_message` makes of a RANGEA message, against the records of the message:
an entry for each satellite with a carried signal, in the order of their first records, and in each band the
record of the highest preference (`observation_selection`). -/

namespace GpsBase.Rinex.Observed

open GpsBase.Lib.Binary64 GpsBase.Lib.Binary64.Float64 GpsBase.Lib.CText GpsBase.Lib.Lines
open GpsBase.Lib.Preference GpsBase.Rinex.SatId GpsBase.Rinex.Logger GpsBase.Rinex.Logger.RinexLogger
open GpsBase.Rinex.Parts

/-! ### Records -/

/-- A field of a record, without the blanks before it. -/
def field (f : List (List UInt8)) (i : ℕ) : List UInt8 :=
  (f.getD i []).dropWhile fun b => b = 32 || b = cr || b = lf

/-- The raw PRN of a record, with or without a letter. -/
def rawPrn (f : List (List UInt8)) : UInt16 :=
  UInt16.ofNat (atoi (if ((field f 0).head?.map isAlpha).getD false then (field f 0).tail
    else field f 0) % 65536).toNat

def system (f : List (List UInt8)) : ℕ := strtoul16 (field f 9) / 2 ^ 16 % 8

def signal (f : List (List UInt8)) : ℕ := strtoul16 (field f 9) / 2 ^ 21 % 32

/-- A satellite, by system and raw PRN. -/
structure Key where
  system : UInt8
  prn : UInt16
  deriving DecidableEq

/-- **A record that counts**: its satellite has an id and its signal is carried, in a band and with a
preference; the carrier phase is negated. -/
def report (c : Clib) (f : List (List UInt8)) : Option (Item Key (Fin 3) SigObs) :=
  if (formatSatId (UInt8.ofNat (system f)) (rawPrn f).toNat).isNone then none
  else (signalBand (system f) (signal f)).map fun (band, pref) =>
    { key := ⟨UInt8.ofNat (system f), rawPrn f⟩, slot := band, pref := pref
      value :=
        { pseudorange := c.atof (field f 2), carrierPhase := (c.atof (field f 4)).neg
          doppler := c.toFloat (c.atof (field f 6)), cn0 := c.toFloat (c.atof (field f 7))
          valid := true } }

def key (s : SatObs) : Key := ⟨s.system, s.prn⟩

/-- A band of an entry and its preference. -/
def cell (s : SatObs) (b : Fin 3) : SigObs × ℤ := (s.sig b, s.pref b)

/-- **The list that was to be made of some records**: one entry for each satellite, in the order of their
first records, with the best record of each band, or a blank. -/
structure Selected (reports : List (Item Key (Fin 3) SigObs)) (sats : List SatObs) : Prop where
  keys : sats.map key = (reports.map Item.key).eraseDups
  once : (sats.map key).Nodup
  bands : ∀ s ∈ sats, ∀ b, (∃ r, Best reports (key s) b r ∧ s.sig b = r.value) ∨
    (∀ r ∈ reports, r.key = key s → r.slot ≠ b) ∧ s.sig b = {}

/-! ### One record -/

theorem formatSatId_zero (sys : UInt8) : formatSatId sys 0 = none := by
  unfold formatSatId
  rcases hd : findSystem sys with _ | d
  · rfl
  · have hmem := (findSystem_mem hd).1
    have hthreshold : ∀ d ∈ systems, ¬ d.threshold ≤ 0 := by decide
    dsimp only
    rw [if_neg (hthreshold d hmem), if_pos (Or.inl (by decide))]

theorem signalBand_pref {sys sig : ℕ} {band : Fin 3} {pref : ℤ} (h : signalBand sys sig = some (band, pref)) :
    0 ≤ pref := by
  unfold signalBand at h
  split at h
  all_goals
    cases h
    try decide

theorem observe_fields (c : Clib) (sats : List SatObs) (f : List (List UInt8)) :
    observe c sats f =
      if rawPrn f = 0 then sats
      else match formatSatId (UInt8.ofNat (system f)) (rawPrn f).toNat with
        | none => sats
        | some _ => match signalBand (system f) (signal f) with
          | none => sats
          | some (band, pref) => findOrCreate (rawPrn f) (UInt8.ofNat (system f))
              (fun sat => sat.keep ((atoi (field f 1)).bmod 256) band pref
                { pseudorange := c.atof (field f 2), carrierPhase := (c.atof (field f 4)).neg
                  doppler := c.toFloat (c.atof (field f 6)), cn0 := c.toFloat (c.atof (field f 7))
                  valid := true }) sats := rfl

/-- **A record of the message** that counts goes to its satellite; the others are skipped. -/
theorem observe_eq (c : Clib) (sats : List SatObs) (f : List (List UInt8)) :
    observe c sats f = match report c f with
      | none => sats
      | some r => findOrCreate r.key.prn r.key.system
          (fun sat => sat.keep ((atoi (field f 1)).bmod 256) r.slot r.pref r.value) sats := by
  rw [observe_fields]
  unfold report
  by_cases hzero : rawPrn f = 0
  · rw [if_pos hzero, hzero, show ((0 : UInt16).toNat : ℤ) = 0 from rfl, formatSatId_zero]
    rfl
  · rw [if_neg hzero]
    rcases formatSatId (UInt8.ofNat (system f)) (rawPrn f).toNat with _ | id
    · rfl
    · rcases signalBand (system f) (signal f) with _ | ⟨band, pref⟩
      · rfl
      · rfl

theorem keep_key (gloFreq : ℤ) (band : Fin 3) (pref : ℤ) (obs : SigObs) (s : SatObs) :
    key (s.keep gloFreq band pref obs) = key s := by
  unfold SatObs.keep
  dsimp only
  split_ifs <;> rfl

theorem keep_cell (gloFreq : ℤ) (r : Item Key (Fin 3) SigObs) (s : SatObs) (h : key s = r.key) (b : Fin 3) :
    cell (s.keep gloFreq r.slot r.pref r.value) b = put r (key s) b (cell s b) := by
  unfold SatObs.keep put cell
  dsimp only
  by_cases hlt : s.pref r.slot < r.pref
  · rw [if_pos hlt]
    show (Function.update s.sig r.slot r.value b, Function.update s.pref r.slot r.pref b) = _
    rcases eq_or_ne b r.slot with rfl | hne
    · rw [if_pos ⟨h.symm, rfl, hlt⟩, Function.update_self, Function.update_self]
    · rw [if_neg fun hput => hne hput.2.1.symm, Function.update_of_ne hne, Function.update_of_ne hne]
  · rw [if_neg hlt, if_neg]
    rintro ⟨-, rfl, hput⟩
    exact hlt hput

theorem put_other (r : Item Key (Fin 3) SigObs) {k : Key} (h : r.key ≠ k) (b : Fin 3) (x : SigObs × ℤ) :
    put r k b x = x := if_neg fun hput => h hput.1

/-! ### Finding and creating -/

variable {prn : UInt16} {system : UInt8} {change : SatObs → SatObs}

theorem keys_findOrCreate (hchange : ∀ s, key (change s) = key s) (sats : List SatObs) :
    (findOrCreate prn system change sats).map key =
      if ⟨system, prn⟩ ∈ sats.map key then sats.map key else sats.map key ++ [⟨system, prn⟩] := by
  induction sats with
  | nil =>
    rw [findOrCreate, List.map_singleton, hchange, List.map_nil, if_neg List.not_mem_nil]
    rfl
  | cons s sats ih =>
    unfold findOrCreate
    by_cases hs : s.prn = prn ∧ s.system = system
    · obtain ⟨rfl, rfl⟩ := hs
      rw [if_pos ⟨rfl, rfl⟩, List.map_cons, List.map_cons, hchange]
      exact (if_pos List.mem_cons_self).symm
    · rw [if_neg hs, List.map_cons, List.map_cons, ih]
      have hne : (⟨system, prn⟩ : Key) ≠ key s := fun heq =>
        hs ⟨(Key.mk.inj heq).2.symm, (Key.mk.inj heq).1.symm⟩
      by_cases hmem : (⟨system, prn⟩ : Key) ∈ sats.map key
      · rw [if_pos hmem, if_pos (List.mem_cons_of_mem _ hmem)]
      · rw [if_neg hmem, if_neg fun h => (List.mem_cons.mp h).elim hne hmem]
        rfl

/-- An entry afterwards: another satellite's as before, or the one found or created, changed. -/
theorem mem_findOrCreate {sats : List SatObs} (hnodup : (sats.map key).Nodup) {s : SatObs}
    (h : s ∈ findOrCreate prn system change sats) :
    (s ∈ sats ∧ key s ≠ ⟨system, prn⟩) ∨ (∃ s₀ ∈ sats, key s₀ = ⟨system, prn⟩ ∧ s = change s₀) ∨
      ⟨system, prn⟩ ∉ sats.map key ∧ s = change { prn := prn, system := system } := by
  induction sats with
  | nil => exact Or.inr (Or.inr ⟨List.not_mem_nil, List.mem_singleton.mp h⟩)
  | cons t sats ih =>
    rw [List.map_cons, List.nodup_cons] at hnodup
    unfold findOrCreate at h
    by_cases ht : t.prn = prn ∧ t.system = system
    · have hkey : key t = ⟨system, prn⟩ := by
        rw [key, ht.1, ht.2]
      rw [if_pos ht] at h
      rcases List.mem_cons.mp h with rfl | h
      · exact Or.inr (Or.inl ⟨t, List.mem_cons_self, hkey, rfl⟩)
      · refine Or.inl ⟨List.mem_cons_of_mem t h, fun heq => hnodup.1 ?_⟩
        rw [hkey, ← heq]
        exact List.mem_map_of_mem h
    · have hne : key t ≠ ⟨system, prn⟩ := fun heq => ht ⟨(Key.mk.inj heq).2, (Key.mk.inj heq).1⟩
      rw [if_neg ht] at h
      rcases List.mem_cons.mp h with rfl | h
      · exact Or.inl ⟨List.mem_cons_self, hne⟩
      · rcases ih hnodup.2 h with ⟨hmem, hkey⟩ | ⟨s₀, hmem, hkey⟩ | ⟨hnew, heq⟩
        · exact Or.inl ⟨List.mem_cons_of_mem t hmem, hkey⟩
        · exact Or.inr (Or.inl ⟨s₀, List.mem_cons_of_mem t hmem, hkey⟩)
        · exact Or.inr (Or.inr ⟨fun hmem => (List.mem_cons.mp hmem).elim (fun h => hne h.symm) hnew, heq⟩)

/-! ### The records of a message -/

/-- The entries as a table of the records that count. -/
abbrev Table (reports : List (Item Key (Fin 3) SigObs)) (sats : List SatObs) : Prop :=
  Chosen ({} : SigObs) key cell reports sats

theorem Table.selected {reports : List (Item Key (Fin 3) SigObs)} {sats : List SatObs}
    (h : Table reports sats) : Selected reports sats where
  keys := h.keys
  once := h.nodup
  bands s hs b := by
    rcases h.cells s hs b with ⟨r, hr, hcell⟩ | ⟨hnone, hcell⟩
    · exact Or.inl ⟨r, hr, (Prod.mk.inj hcell).1⟩
    · exact Or.inr ⟨hnone, (Prod.mk.inj hcell).1⟩

theorem report_pref {c : Clib} {f : List (List UInt8)} {r : Item Key (Fin 3) SigObs}
    (h : report c f = some r) : 0 ≤ r.pref := by
  unfold report at h
  split_ifs at h
  obtain ⟨⟨band, pref⟩, hband, rfl⟩ := Option.map_eq_some_iff.mp h
  exact signalBand_pref hband

theorem table_observe (c : Clib) {records : List (List (List UInt8))} {sats : List SatObs}
    (h : Table (records.filterMap (report c)) sats) (f : List (List UInt8)) :
    Table ((records ++ [f]).filterMap (report c)) (observe c sats f) := by
  rw [observe_eq, List.filterMap_append]
  rcases hf : report c f with _ | r
  · rw [List.filterMap_cons_none hf, List.filterMap_nil, List.append_nil]
    exact h
  · rw [List.filterMap_cons_some hf, List.filterMap_nil]
    dsimp only
    refine h.concat (report_pref hf) (keys_findOrCreate (fun s => keep_key _ _ _ _ s) sats) fun s hs => ?_
    rcases mem_findOrCreate h.nodup hs with ⟨hmem, hne⟩ | ⟨s₀, hmem, hkey, rfl⟩ | ⟨hnew, rfl⟩
    · exact Or.inl ⟨s, hmem, rfl, fun b => (put_other r (fun heq => hne heq.symm) b _).symm⟩
    · refine Or.inl ⟨s₀, hmem, (keep_key _ _ _ _ s₀).symm, fun b => ?_⟩
      rw [keep_key]
      exact keep_cell _ r s₀ hkey b
    · refine Or.inr ⟨?_, fun b => ?_⟩
      · rw [keep_key]
        exact hnew
      · rw [keep_key]
        exact keep_cell _ r { prn := r.key.prn, system := r.key.system } rfl b

theorem table_records (c : Clib) (records : List (List (List UInt8))) :
    Table (records.filterMap (report c)) (records.foldl (observe c) []) := by
  induction records using List.reverseRecOn with
  | nil => exact chosen_nil
  | append_singleton records f ih =>
    rw [List.foldl_append]
    exact table_observe c ih f

theorem observations_records (c : Clib) {records : List (List (List UInt8))}
    (h : ∀ f ∈ records, f.length = 10) (rest : List (List UInt8)) (sats : List SatObs) :
    observations c records.length (records.flatten ++ rest) sats = records.foldl (observe c) sats := by
  induction records generalizing sats with
  | nil => rfl
  | cons f records ih =>
    have hf : f.length = 10 := h f List.mem_cons_self
    rw [List.flatten_cons, List.append_assoc, List.length_cons, observations, if_neg, List.foldl_cons]
    · rw [List.drop_append_of_le_length (by omega), List.drop_of_length_le (by omega), List.nil_append,
        List.take_append_of_le_length (by omega), List.take_of_length_le (by omega)]
      exact ih (fun g hg => h g (List.mem_cons_of_mem f hg)) _
    · rw [List.length_append]
      omega

/-! ### The text of a message -/

def separator (b : UInt8) : Bool := b ∈ ascii ",\r\n*"

/-- A field as it is written: something, with no separator in it. -/
structure Field (f : List UInt8) : Prop where
  ne : f ≠ []
  plain : ∀ b ∈ f, separator b = false
  nul : 0 ∉ f

structure Message where
  header : List UInt8
  count : List UInt8
  records : List (List (List UInt8))
  crc : List UInt8

namespace Message

def text (m : Message) : List UInt8 :=
  m.header ++ ';'.toUInt8 ::
    (m.count ++ (m.records.flatten.flatMap fun f => ','.toUInt8 :: f) ++ '*'.toUInt8 :: (m.crc ++ [cr, lf]))

def fields (m : Message) : List (List UInt8) := tokens (· = ','.toUInt8) (m.header.take 255)

def week (m : Message) : ℤ := (m.fields[5]?.map atoi).getD 0

def tow (m : Message) (c : Clib) : Float64 := (m.fields[6]?.map c.atof).getD (ofInt 0)

/-- **A well-formed message**: an accepted time status, a week, an epoch of 30 s, and as many records of ten
fields as declared. -/
structure WellFormed (c : Clib) (m : Message) : Prop where
  header : ∀ b ∈ m.header, b ≠ 0 ∧ b ≠ ';'.toUInt8
  status : ∃ tok, m.fields[4]? = some tok ∧ (tok.take 4 = ascii "FINE" ∨ tok.take 3 = ascii "SAT")
  week : 0 < m.week
  epoch : kEpochHalfWidth.lt ((m.tow c).sub (roundedTow (m.tow c))).abs = false
  count : Field m.count
  declared : atoi m.count = m.records.length
  least : 1 ≤ m.records.length
  most : m.records.length ≤ 120
  records : ∀ f ∈ m.records, f.length = 10 ∧ ∀ g ∈ f, Field g
  crc : 0 ∉ m.crc

theorem tokens_fields {fields : List (List UInt8)} (h : ∀ f ∈ fields, Field f) (x y : List UInt8) :
    tokens separator (x ++ (fields.flatMap fun f => ','.toUInt8 :: f) ++ '*'.toUInt8 :: y) =
      tokens separator x ++ (fields ++ tokens separator y) := by
  induction fields generalizing x with
  | nil =>
    rw [List.flatMap_nil, List.append_nil, tokens_append separator (by decide)]
    rfl
  | cons f fields ih =>
    have hf := h f List.mem_cons_self
    rw [List.flatMap_cons, ← List.append_assoc x, ih (fun g hg => h g (List.mem_cons_of_mem f hg)),
      tokens_append separator (by decide), tokens_self separator hf.plain hf.ne, List.append_assoc]
    rfl

theorem tokens_body {c : Clib} {m : Message} (h : m.WellFormed c) :
    tokens separator (m.count ++ (m.records.flatten.flatMap fun f => ','.toUInt8 :: f) ++
      '*'.toUInt8 :: (m.crc ++ [cr, lf])) =
    m.count :: (m.records.flatten ++ tokens separator (m.crc ++ [cr, lf])) := by
  rw [tokens_fields, tokens_self separator h.count.plain h.count.ne]
  · rfl
  · intro f hf
    obtain ⟨g, hg, hf⟩ := List.mem_flatten.mp hf
    exact (h.records g hg).2 f hf

theorem cStr_text {c : Clib} {m : Message} (h : m.WellFormed c) : cStr m.text = m.text := by
  refine cStr_eq_self fun hmem => ?_
  unfold text at hmem
  rcases List.mem_append.mp hmem with hmem | hmem
  · exact (h.header 0 hmem).1 rfl
  · rcases List.mem_cons.mp hmem with hmem | hmem
    · exact absurd hmem (by decide)
    · rcases List.mem_append.mp hmem with hmem | hmem
      · rcases List.mem_append.mp hmem with hmem | hmem
        · exact h.count.nul hmem
        · obtain ⟨f, hf, hmem⟩ := List.mem_flatMap.mp hmem
          rcases List.mem_cons.mp hmem with hmem | hmem
          · exact absurd hmem (by decide)
          · obtain ⟨g, hg, hf⟩ := List.mem_flatten.mp hf
            exact ((h.records g hg).2 f hf).nul hmem
      · rcases List.mem_cons.mp hmem with hmem | hmem
        · exact absurd hmem (by decide)
        · rcases List.mem_append.mp hmem with hmem | hmem
          · exact h.crc hmem
          · exact absurd hmem (by decide)

theorem takeWhile_text {c : Clib} {m : Message} (h : m.WellFormed c) :
    m.text.takeWhile (· ≠ ';'.toUInt8) = m.header := by
  unfold text
  rw [List.takeWhile_append_of_pos fun b hb => decide_eq_true (h.header b hb).2,
    List.takeWhile_cons_of_neg (by simp), List.append_nil]

end Message

/-! ### The message -/

/-- **What a message observes**: the list that `write_epoch` is called with has one entry for each satellite
with a carried signal, in the order of their first records, and each band of it is the best record or
blank. -/
theorem observation_selection (c : Clib) {l : RinexLogger} {m : Message} (hm : m.WellFormed c)
    (hmsg : l.msg = m.text) :
    ∃ sats, Selected (m.records.filterMap (report c)) sats ∧
      l.processMessage c =
        if sats.isEmpty then l
        else
          let l' := ready c l m.week (roundedTow (m.tow c)) sats
          if l'.file.isSome then l'.writeEpoch c m.week (roundedTow (m.tow c)) sats else l' := by
  refine ⟨m.records.foldl (observe c) [], (table_records c m.records).selected, ?_⟩
  dsimp only
  rw [← logEpoch_ready]
  unfold processMessage
  rw [hmsg, Message.cStr_text hm]
  dsimp only
  rw [show m.text.takeWhile (fun b => decide (b ≠ ';'.toUInt8)) = m.header from Message.takeWhile_text hm,
    if_neg, show tokens (fun x => decide (x = ','.toUInt8)) (m.header.take 255) = m.fields from rfl,
    show (m.fields[5]?.map atoi).getD 0 = m.week from rfl,
    show (m.fields[6]?.map c.atof).getD (ofInt 0) = m.tow c from rfl]
  · have hstatus : (m.fields[4]?.any fun tok => tok.take 4 = ascii "FINE" || tok.take 3 = ascii "SAT") =
        true := by
      obtain ⟨tok, htok, hok⟩ := hm.status
      rw [htok, Option.any_some, Bool.or_eq_true, decide_eq_true_iff, decide_eq_true_iff]
      exact hok
    rw [hstatus, if_neg (by simpa using hm.week), if_neg (by rw [hm.epoch]; exact Bool.false_ne_true)]
    have hbody : m.text.drop (m.header.length + 1) = m.count ++
        (m.records.flatten.flatMap fun f => ','.toUInt8 :: f) ++ '*'.toUInt8 :: (m.crc ++ [cr, lf]) := by
      unfold Message.text
      rw [← List.drop_drop, List.drop_left]
      rfl
    unfold processBody
    rw [hbody, show (fun b => decide (b ∈ ascii ",\r\n*")) = separator from rfl, Message.tokens_body hm]
    dsimp only
    have hleast := hm.least
    have hmost := hm.most
    rw [hm.declared, if_neg (by omega), Int.toNat_natCast,
      observations_records c (fun f hf => (hm.records f hf).1)]
  · unfold Message.text
    rw [List.length_append, List.length_cons]
    omega

/-- A record of a satellite, with a distance and a channel tracking status. -/
def sampleRecord (distance status : String) : List (List UInt8) :=
  [[53], [48], ascii distance, [48], [49], [48], [48], [52], [49], ascii status]

/-- A message with two signals of one band of one satellite. -/
def sampleMessage : Message where
  header := ascii "#RANGEA,COM3,0,80.0,FINE,2300,30"
  count := [50]
  records := [sampleRecord "2" "1200000", sampleRecord "3" "A00000"]
  crc := ascii "12345678"

instance (f : List UInt8) : Decidable (Field f) :=
  decidable_of_iff (f ≠ [] ∧ (∀ b ∈ f, separator b = false) ∧ 0 ∉ f)
    ⟨fun h => ⟨h.1, h.2.1, h.2.2⟩, fun h => ⟨h.ne, h.plain, h.nul⟩⟩

theorem wellFormed_sampleMessage : sampleMessage.WellFormed Sessions.sampleClib := by
  have hparts : (∀ b ∈ sampleMessage.header, b ≠ 0 ∧ b ≠ ';'.toUInt8) ∧
      sampleMessage.fields[4]? = some (ascii "FINE") ∧ 0 < sampleMessage.week ∧
      kEpochHalfWidth.lt ((sampleMessage.tow Sessions.sampleClib).sub
        (roundedTow (sampleMessage.tow Sessions.sampleClib))).abs = false ∧
      Field sampleMessage.count ∧
      (∀ f ∈ sampleMessage.records, f.length = 10 ∧ ∀ g ∈ f, Field g) ∧ 0 ∉ sampleMessage.crc := by
    decide +kernel
  obtain ⟨hheader, hstatus, hweek, hepoch, hcount, hrecords, hcrc⟩ := hparts
  exact ⟨hheader, ⟨_, hstatus, Or.inl rfl⟩, hweek, hepoch, hcount, rfl, by decide, by decide, hrecords, hcrc⟩

theorem observation_selection_sample :
    ∃ sats, Selected (sampleMessage.records.filterMap (report Sessions.sampleClib)) sats ∧
      ({ opens := fun _ => true, msg := sampleMessage.text } : RinexLogger).processMessage
          Sessions.sampleClib =
        if sats.isEmpty then { opens := fun _ => true, msg := sampleMessage.text }
        else
          let l' := ready Sessions.sampleClib { opens := fun _ => true, msg := sampleMessage.text }
            sampleMessage.week (roundedTow (sampleMessage.tow Sessions.sampleClib)) sats
          if l'.file.isSome then
            l'.writeEpoch Sessions.sampleClib sampleMessage.week
              (roundedTow (sampleMessage.tow Sessions.sampleClib)) sats
          else l' :=
  observation_selection Sessions.sampleClib wellFormed_sampleMessage rfl

/-- The second record is preferred to the first. -/
example : (sampleMessage.records.foldl (observe Sessions.sampleClib) []).map (fun s =>
    (s.prn, s.system, decide ((s.sig 1).pseudorange = ofInt 3), (s.sig 0).valid)) =
      [(5, 0, true, false)] := by
  decide +kernel

end GpsBase.Rinex.Observed
