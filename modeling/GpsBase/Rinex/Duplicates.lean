import GpsBase.Rinex.Observed

/-! # The ids of an epoch

`process_message` finds the entry of a record by its raw PRN, `write_epoch` labels a row with the PRN the
offset of the constellation is taken from. GLONASS has an id for `p` and for `p + 37`, BeiDou for `p` and for
`p + 140`: a message that uses both has its satellite in two entries and its id in two rows, and that is the
only way to two rows of one id (`ids_once_iff`). -/

namespace GpsBase.Rinex.Duplicates

open GpsBase.Lib.Binary64 GpsBase.Lib.Binary64.Float64 GpsBase.Lib.CText GpsBase.Lib.Lines
open GpsBase.Lib.Preference GpsBase.Rinex.SatId GpsBase.Rinex.Logger GpsBase.Rinex.Logger.RinexLogger
open GpsBase.Rinex.Epochs GpsBase.Rinex.Observed GpsBase.Rinex.Parts

/-! ### Raw numbers and ids -/

def normalised (d : SystemDef) (rawPrn : ℤ) : ℤ := if d.threshold ≤ rawPrn then rawPrn - d.offset else rawPrn

theorem satId_formatSatId {sys : UInt8} {rawPrn : ℤ} {id : List UInt8}
    (h : formatSatId sys rawPrn = some id) :
    ∃ d, findSystem sys = some d ∧ 1 ≤ normalised d rawPrn ∧
      Validator.satId id = some (d.code, (normalised d rawPrn).toNat) := by
  unfold formatSatId at h
  rcases hd : findSystem sys with _ | d
  · rw [hd] at h
    cases h
  · rw [hd] at h
    dsimp only at h
    rw [show (if d.threshold ≤ rawPrn then rawPrn - d.offset else rawPrn) = normalised d rawPrn from rfl] at h
    split_ifs at h with hout
    rw [not_or, not_lt, not_lt] at hout
    have hmem := (findSystem_mem hd).1
    have hmax := maxPrn_le d hmem
    obtain ⟨n, hn⟩ := Int.eq_ofNat_of_zero_le (show 0 ≤ normalised d rawPrn by omega)
    refine ⟨d, rfl, hout.1, ?_⟩
    rw [hn] at hout h ⊢
    rw [Int.emod_eq_of_lt (by omega) (by omega), zeroInt_two n (by omega)] at h
    rw [← Option.some.inj h, Int.toNat_natCast]
    exact (satId_two d hmem n (by omega) (by omega) hout.2).1

theorem formatSatId_congr {sys : UInt8} {d : SystemDef} (hd : findSystem sys = some d) {p q : ℤ}
    (h : normalised d p = normalised d q) : formatSatId sys p = formatSatId sys q := by
  unfold normalised at h
  unfold formatSatId
  rw [hd]
  dsimp only
  rw [h]

/-- **Two raw numbers of one id** are those before and after the offset. -/
theorem eq_add_offset {d : SystemDef} {p q : ℤ} (h : normalised d p = normalised d q) (hlt : p < q) :
    p < d.threshold ∧ d.threshold ≤ q ∧ q = p + d.offset := by
  unfold normalised at h
  split_ifs at h <;> omega

theorem normalised_add_offset {d : SystemDef} {p : ℤ} (hp : p < d.threshold)
    (hq : d.threshold ≤ p + d.offset) :
    normalised d p = normalised d (p + d.offset) := by
  unfold normalised
  rw [if_neg (by omega), if_pos hq]
  omega

/-- **Satellites of one id** are one, or one system's before and after its offset. -/
theorem same_id {k k' : Key} {id : List UInt8} (hk : formatSatId k.system k.prn.toNat = some id)
    (hk' : formatSatId k'.system k'.prn.toNat = some id) :
    k.system = k'.system ∧ ∃ d, findSystem k.system = some d ∧
      normalised d k.prn.toNat = normalised d k'.prn.toNat := by
  have hcodes : ∀ d ∈ systems, ∀ d' ∈ systems, d.code = d'.code → d = d' := by decide
  obtain ⟨d, hd, hpos, hid⟩ := satId_formatSatId hk
  obtain ⟨d', hd', hpos', hid'⟩ := satId_formatSatId hk'
  obtain ⟨hmem, hsys⟩ := findSystem_mem hd
  obtain ⟨hmem', hsys'⟩ := findSystem_mem hd'
  obtain ⟨hcode, hnum⟩ := Prod.mk.inj (Option.some.inj (hid.symm.trans hid'))
  obtain rfl := hcodes d hmem d' hmem' hcode
  exact ⟨hsys.symm.trans hsys', d, hd, by omega⟩

/-! ### The records of a message -/

/-- The first records, of ten fields each. -/
def taken : ℕ → List (List UInt8) → List (List (List UInt8))
  | 0, _ => []
  | n + 1, toks => if toks.length < 10 then [] else toks.take 10 :: taken n (toks.drop 10)

theorem observations_taken (c : Clib) : ∀ (n : ℕ) (toks : List (List UInt8)) (sats : List SatObs),
    observations c n toks sats = (taken n toks).foldl (observe c) sats
  | 0, _, _ => rfl
  | n + 1, toks, sats => by
    rw [observations, taken]
    split_ifs
    · rfl
    · rw [List.foldl_cons]
      exact observations_taken c n (toks.drop 10) _

/-- A message that is gone through. -/
structure Reading where
  week : ℤ
  rounded : Float64
  records : List (List (List UInt8))

def readBody (body : List UInt8) : Option (List (List (List UInt8))) :=
  match tokens separator body with
  | [] => none
  | tok :: toks => if atoi tok ≤ 0 ∨ 120 < atoi tok then none else some (taken (atoi tok).toNat toks)

/-- What `process_message` reads in a message whose header it accepts. -/
def read (c : Clib) (msg : List UInt8) : Option Reading :=
  let msg := cStr msg
  let hdr := msg.takeWhile (· ≠ ';'.toUInt8)
  if hdr.length = msg.length then none
  else
    let fields := tokens (· = ','.toUInt8) (hdr.take 255)
    let timeOk := fields[4]?.any fun tok => tok.take 4 = ascii "FINE" || tok.take 3 = ascii "SAT"
    let week := (fields[5]?.map atoi).getD 0
    let tow := (fields[6]?.map c.atof).getD (ofInt 0)
    if !timeOk ∨ week ≤ 0 then none
    else
      let rounded := roundedTow tow
      if kEpochHalfWidth.lt (tow.sub rounded).abs then none
      else (readBody (msg.drop (hdr.length + 1))).map fun records => ⟨week, rounded, records⟩

def Reading.sats (m : Reading) (c : Clib) : List SatObs := m.records.foldl (observe c) []

theorem processBody_readBody (c : Clib) (l : RinexLogger) (week : ℤ) (rounded : Float64) (body : List UInt8) :
    l.processBody c week rounded body = match readBody body with
      | none => l
      | some records =>
        let sats := records.foldl (observe c) []
        if sats.isEmpty then l else l.logEpoch c week rounded sats := by
  unfold processBody readBody
  rw [show (fun b => decide (b ∈ ascii ",\r\n*")) = separator from rfl]
  rcases tokens separator body with _ | ⟨tok, toks⟩
  · rfl
  · dsimp only
    by_cases hnum : atoi tok ≤ 0 ∨ 120 < atoi tok
    · rw [if_pos hnum, if_pos hnum]
    · rw [if_neg hnum, if_neg hnum, observations_taken]

/-- **A message** is read, its records are gone through, and the entries are logged. -/
theorem processMessage_read (c : Clib) (l : RinexLogger) :
    l.processMessage c = match read c l.msg with
      | none => l
      | some m => if (m.sats c).isEmpty then l else l.logEpoch c m.week m.rounded (m.sats c) := by
  unfold processMessage read
  dsimp only
  split_ifs
  · rfl
  · rfl
  · rfl
  · rw [processBody_readBody]
    rcases readBody _ with _ | records
    · rfl
    · rfl

/-! ### The rows of a message -/

/-- **The ids of the block** a message adds: those of the rows that `write_epoch` writes, if it is called. -/
def block (c : Clib) (l : RinexLogger) : List (List UInt8) :=
  match read c l.msg with
  | none => []
  | some m =>
    let l := ready c l m.week m.rounded (m.sats c)
    if l.file.isSome then (l.epochSats (m.sats c)).map Prod.snd else []

/-- The open file is kept for the epoch. -/
def keeps (l : RinexLogger) (week : ℤ) (rounded : Float64) : Bool :=
  l.file.isSome && !(ofInt kSecondsPerFile).le
    (((ofInt (week - l.gpsWeekOpen)).mul (ofInt 604800)).add (rounded.sub l.towOpen))

/-- A system the epoch lists: one of the open file's, or any if a file can be opened. -/
def lists (l : RinexLogger) (week : ℤ) (rounded : Float64) (system : UInt8) : Bool :=
  if keeps l week rounded then hasSystem l.presentMask system else l.opens 0

/-- **Two records of a message that clash**: both count, their system is listed, and the raw PRN of one is
that of the other and the offset of the constellation. -/
def Clash (c : Clib) (l : RinexLogger) : Prop :=
  ∃ m, read c l.msg = some m ∧ ∃ r ∈ m.records.filterMap (report c), ∃ r' ∈ m.records.filterMap (report c),
    ∃ d, findSystem r.key.system = some d ∧ r'.key.system = r.key.system ∧
      lists l m.week m.rounded r.key.system = true ∧
      (r.key.prn.toNat : ℤ) < d.threshold ∧ d.threshold ≤ (r'.key.prn.toNat : ℤ) ∧
      (r'.key.prn.toNat : ℤ) = r.key.prn.toNat + d.offset

/-! ### The logger an epoch is written on -/

theorem closeFile_rest (c : Clib) (l : RinexLogger) :
    (l.closeFile c).file = none ∧ (l.closeFile c).opens = l.opens := by
  unfold closeFile
  rcases hfile : l.file with _ | f
  · exact ⟨hfile, rfl⟩
  · exact ⟨rfl, rfl⟩

theorem rotateIfNeeded_keeps (c : Clib) (l : RinexLogger) (week : ℤ) (rounded : Float64) :
    l.rotateIfNeeded c week rounded = if keeps l week rounded then l else l.closeFile c := by
  unfold keeps rotateIfNeeded
  dsimp only
  generalize (ofInt kSecondsPerFile).le _ = full
  rcases hfile : l.file with _ | f
  · exact (Parts.closeFile_none c hfile).symm
  · rcases full with _ | _
    · rfl
    · rfl

theorem openFile_rest (c : Clib) {l : RinexLogger} (hfile : l.file = none) (week : ℤ) (tow : Float64) :
    (l.openFile c week tow).file.isSome = l.opens 0 ∧
      (l.openFile c week tow).presentMask = l.presentMask := by
  unfold openFile
  rcases l.opens 0 with _ | _
  · exact ⟨congrArg Option.isSome hfile, rfl⟩
  · exact ⟨rfl, rfl⟩

/-- **The systems listed**: those of the open file, and all of the epoch if a file is opened for it. -/
theorem ready_lists (c : Clib) (l : RinexLogger) (week : ℤ) (rounded : Float64) {sats : List SatObs}
    (hlegal : ∀ s ∈ sats, LegalSat s) {s : SatObs} (hs : s ∈ sats) :
    ((ready c l week rounded sats).file.isSome &&
      hasSystem (ready c l week rounded sats).presentMask s.system) =
      lists l week rounded s.system := by
  unfold ready lists
  dsimp only
  rw [rotateIfNeeded_keeps]
  by_cases hkept : keeps l week rounded = true
  · have hsome : l.file.isSome = true := (Bool.and_eq_true_iff.mp hkept).1
    have hnone : ¬ l.file.isNone = true := by
      rw [Option.isNone_iff_eq_none]
      exact Option.isSome_iff_ne_none.mp hsome
    rw [if_pos hkept, if_pos hkept, if_neg hnone, hsome, Bool.true_and]
  · obtain ⟨hfile, hopens⟩ := closeFile_rest c l
    rw [if_neg hkept, if_neg hkept, if_pos (Option.isNone_iff_eq_none.mpr hfile)]
    obtain ⟨hopened, hmask⟩ := openFile_rest c
      (l := { l.closeFile c with presentMask := systemMask sats }) hfile week rounded
    obtain ⟨d, hd, hsys⟩ := (hlegal s hs).system
    have hdeclared : hasSystem (systemMask sats) s.system = true := by
      rw [← hsys]
      exact (hasSystem_systemMask hlegal hd).mpr ⟨s, hs, hsys.symm⟩
    rw [hopened, hmask, hdeclared, Bool.and_true]
    exact congrFun hopens 0

/-! ### Entries and ids -/

/-- A list whose elements are chosen and named has no name twice if different elements have different ones. -/
theorem nodup_filterMap {α β : Type*} {f : α → Option β} {l : List α} (h : l.Nodup) :
    (l.filterMap f).Nodup ↔ ∀ a ∈ l, ∀ a' ∈ l, ∀ b, f a = some b → f a' = some b → a = a' := by
  rw [List.Nodup, List.pairwise_filterMap]
  constructor
  · intro hpair a ha a' ha' b hb hb'
    by_contra hne
    have hsymm : Std.Symm fun a a' => ∀ b, f a = some b → ∀ b', f a' = some b' → b ≠ b' :=
      ⟨fun _ _ h b hb b' hb' heq => h b' hb' b hb heq.symm⟩
    exact hpair.forall ha ha' hne b hb b hb' rfl
  · intro hinj
    refine h.pairwise_of_forall_ne fun a ha a' ha' hne b hb b' hb' heq => hne ?_
    rw [← heq] at hb'
    exact hinj a ha a' ha' b hb hb'

theorem report_legal {c : Clib} {f : List (List UInt8)} {r : Item Key (Fin 3) SigObs}
    (h : report c f = some r) :
    (formatSatId r.key.system r.key.prn.toNat).isSome = true := by
  unfold report at h
  split_ifs at h with hid
  obtain ⟨⟨band, pref⟩, -, rfl⟩ := Option.map_eq_some_iff.mp h
  exact Option.isSome_iff_ne_none.mpr fun hnone => hid (Option.isNone_iff_eq_none.mpr hnone)

theorem mem_keys_sats (c : Clib) (m : Reading) {k : Key} :
    k ∈ (m.sats c).map key ↔ ∃ r ∈ m.records.filterMap (report c), r.key = k := by
  unfold Reading.sats
  rw [(table_records c m.records).keys, List.mem_eraseDups, List.mem_map]

theorem legal_sats (c : Clib) (m : Reading) : ∀ s ∈ m.sats c, LegalSat s := by
  intro s hs
  obtain ⟨r, hr, hkey⟩ := (mem_keys_sats c m).mp (List.mem_map_of_mem hs)
  obtain ⟨f, -, hf⟩ := List.mem_filterMap.mp hr
  have hlegal := report_legal hf
  rw [hkey] at hlegal
  exact hlegal

/-- The id of the row of a satellite, if it gets one. -/
def rowId (l : RinexLogger) (week : ℤ) (rounded : Float64) (k : Key) : Option (List UInt8) :=
  if lists l week rounded k.system then formatSatId k.system k.prn.toNat else none

/-- **The block** names the entries whose system is listed. -/
theorem block_eq (c : Clib) (l : RinexLogger) {m : Reading} (h : read c l.msg = some m) :
    block c l = ((m.sats c).map key).filterMap (rowId l m.week m.rounded) := by
  have hlists := fun s hs => ready_lists c l m.week m.rounded (legal_sats c m) (s := s) hs
  unfold block
  rw [h]
  dsimp only
  rw [List.filterMap_map]
  generalize ready c l m.week m.rounded (m.sats c) = l' at hlists
  have hrow : ∀ s ∈ m.sats c, (rowId l m.week m.rounded ∘ key) s =
      if l'.file.isSome && hasSystem l'.presentMask s.system then formatSatId s.system s.prn.toNat
      else none := by
    intro s hs
    rw [hlists s hs]
    rfl
  rw [List.filterMap_congr hrow]
  unfold epochSats
  rcases l'.file with _ | f
  · exact (List.filterMap_eq_nil_iff.mpr fun s _ => rfl).symm
  · rw [Option.isSome_some, if_pos rfl, List.map_filterMap]
    refine List.filterMap_congr fun s _ => ?_
    rcases hasSystem l'.presentMask s.system with _ | _
    · rfl
    · show Option.map Prod.snd (Option.map (fun id => (s, id)) (formatSatId s.system s.prn.toNat)) = _
      rw [Option.map_map]
      exact Option.map_id'

/-! ### Uniqueness -/

/-- **No id twice**: the block of a message lists an id more than once exactly if two of its records clash. -/
theorem ids_once_iff (c : Clib) (l : RinexLogger) : (block c l).Nodup ↔ ¬ Clash c l := by
  rcases hread : read c l.msg with _ | m
  · refine iff_of_true ?_ ?_
    · unfold block
      rw [hread]
      exact List.nodup_nil
    · rintro ⟨m, hm, -⟩
      rw [hread] at hm
      cases hm
  · have hnodup : ((m.sats c).map key).Nodup := (table_records c m.records).nodup
    rw [block_eq c l hread, nodup_filterMap hnodup]
    constructor
    · rintro hinj ⟨m', hm', r, hr, r', hr', d, hd, hsys, hlisted, hbefore, hafter, hoffset⟩
      obtain rfl := Option.some.inj (hread.symm.trans hm')
      obtain ⟨f, -, hf⟩ := List.mem_filterMap.mp hr
      obtain ⟨id, hid⟩ := Option.isSome_iff_exists.mp (report_legal hf)
      have hsame : formatSatId r.key.system r.key.prn.toNat = formatSatId r'.key.system r'.key.prn.toNat := by
        rw [hsys, hoffset]
        exact formatSatId_congr hd (normalised_add_offset hbefore (hoffset ▸ hafter))
      have heq := hinj r.key ((mem_keys_sats c m).mpr ⟨r, hr, rfl⟩) r'.key
        ((mem_keys_sats c m).mpr ⟨r', hr', rfl⟩) id (by unfold rowId; rw [if_pos hlisted, hid])
        (by unfold rowId; rw [hsys, if_pos hlisted, ← hsys, ← hsame, hid])
      rw [heq] at hbefore
      omega
    · intro hclash k hk k' hk' id hid hid'
      obtain ⟨r, hr, rfl⟩ := (mem_keys_sats c m).mp hk
      obtain ⟨r', hr', rfl⟩ := (mem_keys_sats c m).mp hk'
      unfold rowId at hid hid'
      split_ifs at hid hid' with hlisted hlisted'
      obtain ⟨hsys, d, hd, hnum⟩ := same_id hid hid'
      rcases lt_trichotomy (r.key.prn.toNat : ℤ) r'.key.prn.toNat with hlt | heq | hlt
      · obtain ⟨hbefore, hafter, hoffset⟩ := eq_add_offset hnum hlt
        exact absurd ⟨m, hread, r, hr, r', hr', d, hd, hsys.symm, hlisted, hbefore, hafter, hoffset⟩ hclash
      · have hprn : r.key.prn = r'.key.prn := UInt16.toNat_inj.mp (by exact_mod_cast heq)
        rcases hr₀ : r.key with ⟨sys, prn⟩
        rcases hr₁ : r'.key with ⟨sys', prn'⟩
        rw [hr₀, hr₁] at hsys hprn
        obtain rfl := hsys
        obtain rfl := hprn
        rfl
      · obtain ⟨hbefore, hafter, hoffset⟩ := eq_add_offset hnum.symm hlt
        rw [hsys] at hd
        exact absurd ⟨m, hread, r', hr', r, hr, d, hd, hsys, hlisted', hbefore, hafter, hoffset⟩ hclash

/-- GLONASS 1 as the numbers 1 and 38. -/
def twoNumbers : Message where
  header := ascii "#RANGEA,COM3,0,80.0,FINE,2300,30"
  count := [50]
  records := [ascii "1", ascii "38"].map fun prn =>
    [prn, [48], [50], [48], [49], [48], [48], [52], [49], ascii "10000"]
  crc := ascii "12345678"

/-- **One satellite, two rows.** -/
theorem ids_repeated :
    ¬ (block Sessions.sampleClib { opens := fun _ => true, msg := twoNumbers.text }).Nodup := by
  have hblock : block Sessions.sampleClib { opens := fun _ => true, msg := twoNumbers.text } =
      [ascii "R01", ascii "R01"] := by decide +kernel
  rw [hblock]
  decide

end GpsBase.Rinex.Duplicates
