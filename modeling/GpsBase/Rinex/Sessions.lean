import GpsBase.Rinex.Parts

/-! # The files of a session

Everything between `start` and `stop`, for a logger that may have had sessions before. A file is opened
with the systems of its first epoch, later epochs are cut to them, and so the header of every file
declares exactly what its rows hold. What may spoil it is the antenna type of the settings, which
`ANT # / TYPE` copies as it is: the web form bounds the length of its two fields and nothing else. -/

namespace GpsBase.Rinex.Sessions

open GpsBase.Lib.Binary64 GpsBase.Lib.Binary64.Float64 GpsBase.Lib.CText GpsBase.Lib.Lines
open GpsBase.Rinex.SatId GpsBase.Rinex.Logger GpsBase.Rinex.Logger.RinexLogger
open GpsBase.Rinex.Validator GpsBase.Rinex.Header GpsBase.Rinex.Epochs GpsBase.Rinex.Parts

/-! ### Sessions -/

/-- What `start` is given, and the blocks fed until `stop`. -/
structure Session where
  lat : Float64
  lon : Float64
  height : Float64
  antModel : List UInt8
  antRadome : List UInt8
  antDeltaH : Float64
  feeds : List (List UInt8)

def run (c : Clib) (l : RinexLogger) (s : Session) : RinexLogger :=
  (s.feeds.foldl (feed c) (l.start c s.lat s.lon s.height s.antModel s.antRadome s.antDeltaH)).stop c

/-- The antenna type of a session, with the defaults of `start`. -/
def Session.antType (s : Session) : List UInt8 :=
  Logger.antType (if s.antModel.isEmpty then ascii "HXCGPS500" else s.antModel)
    (if s.antRadome.isEmpty then ascii "NONE" else s.antRadome)

/-! ### The file being written -/

/-- A file with epochs, which hold the systems of the mask. -/
structure Covered (c : Clib) (l : RinexLogger) (x : Contents) : Prop where
  holds : HoldsFile l x
  header : ∃ t, x.header = (headerRecords c l t).flatten
  slot : ∀ b ∈ x.slot, SlotByte b
  epochs : ∀ e ∈ x.epochs, LegalEpoch e
  nonempty : x.epochs ≠ []
  systems : ∀ code, (∃ d ∈ systems, hasSystem l.presentMask d.sys = true ∧ d.code = code) ↔
    ∃ e ∈ x.epochs, ∃ r ∈ e.2, r.head? = some code

theorem slotByte_stamp {x : Contents} (h : ∀ b ∈ x.slot, SlotByte b) (t : Calendar) :
    ∀ b ∈ (x.stamp (timeRecord t "TIME OF LAST OBS")).slot, SlotByte b := by
  intro b hb
  rcases Contents.mem_slot_stamp hb with hb | hb
  · exact slotByte_timeRecord t b hb
  · exact h b hb

/-- A file with its last record put in is valid exactly if the antenna type is harmless. -/
theorem validate_stamp {c : Clib} {l : RinexLogger} {x : Contents} (h : Covered c l x) (t : Calendar) :
    validate (x.stamp (timeRecord t "TIME OF LAST OBS")).bytes = [] ↔
      Harmless (antType l.antModel l.antRadome) := by
  obtain ⟨t₀, ht₀⟩ := h.header
  have hvalid := validate_file c l t₀ (slotByte_stamp h.slot t) h.epochs h.nonempty h.systems
  rw [Contents.bytes, Contents.body, Contents.header_stamp, Contents.epochs_stamp, ht₀]
  exact hvalid

theorem slotByte_newContents (c : Clib) (l : RinexLogger) (t : Calendar) :
    ∀ b ∈ (newContents c l t).slot, SlotByte b := by
  intro b hb
  rcases List.mem_append.mp hb with hb | hb
  · exact slotByte_timeRecord t b hb
  · have hblank : ∀ b ∈ text 60 [], SlotByte b := by
      unfold SlotByte
      decide +kernel
    exact hblank b hb

theorem covered_first (c : Clib) {l : RinexLogger} (hopen : l.opens 0 = true) (week : ℤ)
    (tow : Float64) {sats : List SatObs} (hlegal : ∀ s ∈ sats, LegalSat s) (hne : sats ≠ [])
    (hlen : sats.length ≤ 120) (hmask : l.presentMask = systemMask sats) :
    ∃ x, Covered c ((l.openFile c week tow).writeEpoch c week tow sats) x := by
  have hholds := holdsFile_openFile c hopen week tow
  have hepoch : (l.openFile c week tow).epochSats sats = l.epochSats sats := by
    rw [openFile_eq c hopen]
    rfl
  have hsome : l.epochSats sats ≠ [] := by
    obtain ⟨s, hs⟩ := List.exists_mem_of_ne_nil _ hne
    obtain ⟨id, hid⟩ := Option.isSome_iff_exists.mp (hlegal s hs)
    obtain ⟨d, hd, hsys⟩ := (hlegal s hs).system
    have hmem : (s, id) ∈ l.epochSats sats := by
      refine mem_epochSats.mpr ⟨hs, ?_, hid⟩
      rw [hmask, ← hsys]
      exact (hasSystem_systemMask hlegal hd).mpr ⟨s, hs, hsys.symm⟩
    exact List.ne_nil_of_mem hmem
  rw [← hepoch] at hsome
  have hfile := holdsFile_writeEpoch c hholds week tow hsome
  have hstate := writeEpoch_eq c hholds week tow hsome
  rw [hepoch] at hfile
  refine ⟨_, hfile, ⟨gpsToCalendar c week tow, ?_⟩, slotByte_stamp (slotByte_newContents c l _) _, ?_,
    List.cons_ne_nil _ _, fun code => ?_⟩
  · rw [hstate, openFile_eq c hopen]
    rfl
  · intro e he
    rw [Contents.epochs_stamp, Contents.epochs_addEpoch] at he
    rw [List.mem_singleton.mp he]
    exact legalEpoch_epochOf _ hlen
  · have hpresent : ((l.openFile c week tow).writeEpoch c week tow sats).presentMask =
        l.presentMask := by
      rw [hstate, openFile_eq c hopen]
    have hcodes := codes_epochOf (gpsToCalendar c week tow) (l := l) hlegal code
    have hone : (∃ e ∈ [epochOf (gpsToCalendar c week tow) (l.epochSats sats)],
        ∃ r ∈ e.2, r.head? = some code) ↔
          ∃ r ∈ (epochOf (gpsToCalendar c week tow) (l.epochSats sats)).2, r.head? = some code := by
      simp only [List.mem_singleton, exists_eq_left]
    rw [hpresent]
    refine Iff.trans ?_ (hcodes.symm.trans hone.symm)
    constructor
    · rintro ⟨d, hd, hsys, rfl⟩
      exact ⟨d, hd, rfl, hsys, (hasSystem_systemMask hlegal hd).mp (hmask ▸ hsys)⟩
    · rintro ⟨d, hd, rfl, hsys, -⟩
      exact ⟨d, hd, hsys, rfl⟩

theorem covered_writeEpoch {c : Clib} {l : RinexLogger} {x : Contents} (h : Covered c l x) (week : ℤ)
    (tow : Float64) {sats : List SatObs} (hlegal : ∀ s ∈ sats, LegalSat s)
    (hlen : sats.length ≤ 120) : ∃ x', Covered c (l.writeEpoch c week tow sats) x' := by
  by_cases hsome : l.epochSats sats = []
  · rw [writeEpoch_none c week tow hsome]
    exact ⟨x, h⟩
  · have hfile := holdsFile_writeEpoch c h.holds week tow hsome
    have hstate := writeEpoch_eq c h.holds week tow hsome
    have hslot : ∀ e, ∀ b ∈ (x.addEpoch e).slot, SlotByte b := fun _ => h.slot
    refine ⟨_, hfile, ?_, slotByte_stamp (hslot _) _, ?_, ?_, fun code => ?_⟩
    · obtain ⟨t, ht⟩ := h.header
      refine ⟨t, ?_⟩
      rw [Contents.header_stamp, Contents.header_addEpoch, ht, hstate]
      rfl
    · intro e he
      rw [Contents.epochs_stamp, Contents.epochs_addEpoch] at he
      rcases List.mem_append.mp he with he | he
      · exact h.epochs e he
      · rw [List.mem_singleton.mp he]
        exact legalEpoch_epochOf _ hlen
    · rw [Contents.epochs_stamp, Contents.epochs_addEpoch]
      exact List.append_ne_nil_of_right_ne_nil _ (List.cons_ne_nil _ _)
    · have hpresent : (l.writeEpoch c week tow sats).presentMask = l.presentMask := by
        rw [hstate]
      rw [hpresent, h.systems code]
      constructor
      · rintro ⟨e, he, hr⟩
        exact ⟨e, List.mem_append_left _ he, hr⟩
      · rintro ⟨e, he, hr⟩
        rcases List.mem_append.mp he with he | he
        · exact ⟨e, he, hr⟩
        · rw [List.mem_singleton.mp he] at hr
          obtain ⟨d, hd, hcode, hsys, -⟩ := (codes_epochOf _ hlegal code).mp hr
          exact (h.systems code).mp ⟨d, hd, hsys, hcode⟩

/-! ### The invariant -/

/-- A logger of a session with the antenna type `a`, which has closed files since `before`. -/
structure Recording (c : Clib) (a : List UInt8) (before : List (List UInt8 × List UInt8))
    (l : RinexLogger) : Prop where
  ant : antType l.antModel l.antRadome = a
  file : l.file = none ∨ ∃ x, Covered c l x
  closed : ∃ files, l.closed = before ++ files ∧ ∀ f ∈ files, validate f.2 = [] ↔ Harmless a

theorem Covered.congr {c : Clib} {l l' : RinexLogger} {x : Contents} (h : Covered c l x)
    (hfile : l'.file = l.file) (hslot : l'.lastObsPos = l.lastObsPos)
    (hmask : l'.presentMask = l.presentMask)
    (hheader : ∀ t, headerRecords c l' t = headerRecords c l t) : Covered c l' x where
  holds := ⟨hfile.trans h.holds.file, hslot.trans h.holds.slot, h.holds.header, h.holds.room⟩
  header := h.header.imp fun t ht => ht.trans (by rw [hheader])
  slot := h.slot
  epochs := h.epochs
  nonempty := h.nonempty
  systems := by
    rw [hmask]
    exact h.systems

theorem Recording.buffer {c : Clib} {a : List UInt8} {before : List (List UInt8 × List UInt8)}
    {l : RinexLogger} (h : Recording c a before l) (msg : List UInt8) (inMsg : Bool) :
    Recording c a before { l with msg := msg, inMsg := inMsg } where
  ant := h.ant
  file := h.file.imp_right fun ⟨x, hx⟩ => ⟨x, hx.congr rfl rfl rfl fun _ => rfl⟩
  closed := h.closed

theorem Recording.closeFile {c : Clib} {a : List UInt8} {before : List (List UInt8 × List UInt8)}
    {l : RinexLogger} (h : Recording c a before l) :
    Recording c a before (l.closeFile c) ∧ (l.closeFile c).file = none := by
  rcases h.file with hnone | ⟨x, hx⟩
  · rw [closeFile_none c hnone]
    exact ⟨h, hnone⟩
  · rw [closeFile_eq c hx.holds]
    obtain ⟨files, hclosed, hvalid⟩ := h.closed
    refine ⟨⟨h.ant, Or.inl rfl, _, by rw [hclosed, List.append_assoc], fun f hf => ?_⟩, rfl⟩
    rcases List.mem_append.mp hf with hf | hf
    · exact hvalid f hf
    · rw [List.mem_singleton.mp hf, ← h.ant]
      exact validate_stamp hx _

theorem Recording.rotateIfNeeded {c : Clib} {a : List UInt8}
    {before : List (List UInt8 × List UInt8)} {l : RinexLogger} (h : Recording c a before l)
    (week : ℤ) (tow : Float64) : Recording c a before (l.rotateIfNeeded c week tow) := by
  unfold RinexLogger.rotateIfNeeded
  dsimp only
  split_ifs
  · exact h
  · exact h.closeFile.1
  · exact h

/-- **An epoch logged** leaves the files valid. -/
theorem Recording.logEpoch {c : Clib} {a : List UInt8} {before : List (List UInt8 × List UInt8)}
    {l : RinexLogger} (h : Recording c a before l) (week : ℤ) (rounded : Float64)
    {sats : List SatObs} (hlegal : ∀ s ∈ sats, LegalSat s) (hne : sats ≠ [])
    (hlen : sats.length ≤ 120) : Recording c a before (l.logEpoch c week rounded sats) := by
  obtain ⟨l₁, l₂, h₁, h₂, hcases⟩ := logEpoch_cases c l week rounded sats
  have hl : Recording c a before l₁ := h₁ ▸ h.rotateIfNeeded week rounded
  rcases hcases with ⟨hsome, hlog⟩ | ⟨hnone, hopen, hlog⟩ | ⟨hnone, hopen, hlog⟩
  · -- the file that is open
    rw [hlog]
    obtain ⟨x, hx⟩ := hl.file.resolve_left hsome
    have hfile := covered_writeEpoch hx week rounded hlegal hlen
    by_cases hepoch : l₁.epochSats sats = []
    · rw [writeEpoch_none c week rounded hepoch]
      exact hl
    · rw [writeEpoch_eq c hx.holds week rounded hepoch] at hfile ⊢
      exact ⟨hl.ant, Or.inr hfile, hl.closed⟩
  · rw [hlog, openFile_none c (h₂ ▸ hopen), h₂]
    exact ⟨hl.ant, Or.inl hnone, hl.closed⟩
  · -- a new file
    have hopen₂ : l₂.opens 0 = true := h₂ ▸ hopen
    have hmask : l₂.presentMask = systemMask sats := by
      rw [h₂]
    obtain ⟨x, hx⟩ := covered_first c hopen₂ week rounded hlegal hne hlen hmask
    have hant : antType l₂.antModel l₂.antRadome = a := by
      rw [h₂]
      exact hl.ant
    have hclosed : l₂.closed = l₁.closed := by
      rw [h₂]
    rw [hlog]
    by_cases hepoch : (l₂.openFile c week rounded).epochSats sats = []
    · rw [writeEpoch_none c week rounded hepoch] at hx ⊢
      rw [openFile_eq c hopen₂] at hx ⊢
      exact ⟨hant, Or.inr ⟨x, hx⟩, hclosed ▸ hl.closed⟩
    · rw [writeEpoch_eq c (holdsFile_openFile c hopen₂ week rounded) week rounded hepoch,
        openFile_eq c hopen₂] at hx ⊢
      exact ⟨hant, Or.inr ⟨x, hx⟩, hclosed ▸ hl.closed⟩

/-- The state a session begins in, of a logger that is not active. -/
theorem recording_start (c : Clib) {l : RinexLogger} (hactive : l.active = false)
    (hfile : l.file = none) (s : Session) :
    Recording c s.antType l.closed
      (l.start c s.lat s.lon s.height s.antModel s.antRadome s.antDeltaH) := by
  unfold start
  rw [hactive, if_neg Bool.false_ne_true]
  exact ⟨rfl, Or.inl hfile, [], (List.append_nil _).symm, fun f hf => absurd hf List.not_mem_nil⟩

/-- What holds between sessions. -/
def AtRest (l : RinexLogger) : Prop := l.active = false ∧ l.file = none

theorem active_start (c : Clib) {l : RinexLogger} (h : l.active = false) (s : Session) :
    (l.start c s.lat s.lon s.height s.antModel s.antRadome s.antDeltaH).active = true := by
  unfold start
  rw [h, if_neg Bool.false_ne_true]

theorem Recording.feed {c : Clib} {a : List UInt8} {before : List (List UInt8 × List UInt8)}
    {l : RinexLogger} (h : Recording c a before l) (data : List UInt8) :
    Recording c a before (l.feed c data) :=
  feed_induction c (P := Recording c a before) (fun _ msg inMsg h => h.buffer msg inMsg)
    (fun _ week rounded _ h hlegal hne hlen => h.logEpoch week rounded hlegal hne hlen) data h

/-- **A session** adds files that are valid exactly if its antenna type is harmless, and leaves none
open. -/
theorem recording_run (c : Clib) {l : RinexLogger} (h : AtRest l) (s : Session) :
    Recording c s.antType l.closed (run c l s) ∧ AtRest (run c l s) := by
  have hstart := recording_start c h.1 h.2 s
  have hactive := active_start c h.1 s
  generalize hl : l.start c s.lat s.lon s.height s.antModel s.antRadome s.antDeltaH = l₀ at hstart hactive
  have hfeeds : Recording c s.antType l.closed (s.feeds.foldl (RinexLogger.feed c) l₀) ∧
      (s.feeds.foldl (RinexLogger.feed c) l₀).active = true := by
    refine List.foldlRecOn (motive := fun l' => Recording c s.antType l.closed l' ∧ l'.active = true)
      s.feeds (RinexLogger.feed c) ⟨hstart, hactive⟩ fun l' hl' data _ => ⟨hl'.1.feed data, ?_⟩
    rw [active_feed]
    exact hl'.2
  unfold run
  rw [hl]
  generalize s.feeds.foldl (RinexLogger.feed c) l₀ = l₁ at hfeeds
  have hstop : Recording c s.antType l.closed { l₁ with active := false } :=
    ⟨hfeeds.1.ant, hfeeds.1.file.imp_right fun ⟨x, hx⟩ => ⟨x, hx.congr rfl rfl rfl fun _ => rfl⟩,
      hfeeds.1.closed⟩
  unfold stop
  rw [hfeeds.2, Bool.not_true, if_neg Bool.false_ne_true]
  exact ⟨hstop.closeFile.1, active_closeFile c _, hstop.closeFile.2⟩

theorem atRest_runs (c : Clib) (sessions : List Session) {l : RinexLogger} (h : AtRest l) :
    AtRest (sessions.foldl (run c) l) :=
  List.foldlRecOn (motive := AtRest) sessions (run c) h fun _ hl s _ => (recording_run c hl s).2

/-- **A file the logger writes is valid exactly if the antenna type is harmless**: whatever sessions
there were before, whatever opens of files succeed, and whatever the receiver sends. -/
theorem files_valid_iff (c : Clib) (opens : ℕ → Bool) (sessions : List Session) (s : Session) :
    ∃ files, (run c (sessions.foldl (run c) { opens := opens }) s).closed =
        (sessions.foldl (run c) { opens := opens }).closed ++ files ∧
      (run c (sessions.foldl (run c) { opens := opens }) s).file = none ∧
      ∀ f ∈ files, validate f.2 = [] ↔ Harmless s.antType := by
  have hrest := atRest_runs c sessions (l := { opens := opens }) ⟨rfl, rfl⟩
  obtain ⟨hrun, -, hfile⟩ := recording_run c hrest s
  obtain ⟨files, hclosed, hvalid⟩ := hrun.closed
  exact ⟨files, hclosed, hfile, hvalid⟩

/-! ### A file spoilt -/

/-- The C library at the equator on the fourth of February 2024. -/
def sampleClib : Clib where
  gmtime _ := ⟨124, 1, 4, 0, 0, 0⟩
  atof s := ofInt (atoi s)
  toFloat x := x
  castOther _ := 0
  sin _ := ofInt 0
  cos _ := ofInt 1
  sqrt _ := ofInt 1

/-- One message with one satellite, and an antenna model that ends the header. -/
def sampleSession : Session where
  lat := ofInt 0
  lon := ofInt 0
  height := ofInt 0
  antModel := ascii "END OF HEADER"
  antRadome := []
  antDeltaH := ofInt 0
  feeds := [ascii "#RANGEA,COM3,0,80.0,FINESTEERING,2300,0,0,0,18,14;" ++
    ascii "1,5,0,20000000,0,100000,0,0,45,10,0*12345678\r\n"]

/-- **The file of a session** whose header ends before its interval. -/
theorem file_without_interval :
    (run sampleClib { opens := fun _ => true } sampleSession).closed.map (fun f => validate f.2) =
      [[.missingRecord "TIME OF FIRST OBS", .missingRecord "INTERVAL", .notDeclared 'G'.toUInt8]] := by
  decide +kernel

end GpsBase.Rinex.Sessions
