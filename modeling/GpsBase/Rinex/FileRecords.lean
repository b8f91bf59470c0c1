import GpsBase.Rinex.Sessions

/-! # The records of the files

What a run of the logger has written, file by file. A record is the first epoch of a file and the others,
each of which keeps a promise with the first: that `rotate_if_needed` did not find the file too old for it.
The run that is looked at says what its epochs are (`ε`, with `w` for what is written of one) and what the
promise means for them (`P`). The files of the logger hold such records (`Files`), and a logged epoch goes
into the last one, begins another, or is lost (`Logged`). -/

namespace GpsBase.Rinex.FileRecords

open GpsBase.Lib.Binary64 GpsBase.Lib.Binary64.Float64 GpsBase.Lib.CText GpsBase.Rinex.SatId
open GpsBase.Rinex.Logger GpsBase.Rinex.Logger.RinexLogger GpsBase.Rinex.Epochs GpsBase.Rinex.Parts
open GpsBase.Rinex.Sessions

/-! ### Messages -/

theorem atoi_lt (s : List UInt8) : atoi s < 2 ^ 31 := by
  unfold atoi
  dsimp only
  split_ifs
  · exact max_lt (by omega) (by norm_num)
  · exact (min_le_right _ _).trans_lt (by norm_num)

/-- The bytes of a message before its semicolon. -/
def messageHeader (msg : List UInt8) : List UInt8 := (cStr msg).takeWhile (· ≠ ';'.toUInt8)

/-- The week and the time of week of a message that has a header with a valid time. -/
def headerTime (c : Clib) (msg : List UInt8) : Option (ℤ × Float64) :=
  let fields := tokens (· = ','.toUInt8) ((messageHeader msg).take 255)
  let timeOk := fields[4]?.any fun tok => tok.take 4 = ascii "FINE" || tok.take 3 = ascii "SAT"
  let week := (fields[5]?.map atoi).getD 0
  let tow := (fields[6]?.map c.atof).getD (ofInt 0)
  if (messageHeader msg).length = (cStr msg).length then none
  else if !timeOk ∨ week ≤ 0 then none
  else some (week, tow)

theorem processMessage_eq (c : Clib) (l : RinexLogger) :
    l.processMessage c = match headerTime c l.msg with
      | none => l
      | some (week, tow) =>
        if kEpochHalfWidth.lt (tow.sub (roundedTow tow)).abs then l
        else l.processBody c week (roundedTow tow)
          ((cStr l.msg).drop ((messageHeader l.msg).length + 1)) := by
  unfold processMessage headerTime messageHeader
  dsimp only
  split_ifs with h1 h2 h3
  · rfl
  · rfl
  · exact (if_pos h3).symm
  · exact (if_neg h3).symm

theorem week_headerTime {c : Clib} {msg : List UInt8} {t : ℤ × Float64} (h : headerTime c msg = some t) :
    0 < t.1 ∧ t.1 < 2 ^ 31 := by
  unfold headerTime at h
  dsimp only at h
  split_ifs at h with h1 h2
  rw [not_or, not_le] at h2
  obtain rfl := Option.some.inj h
  refine ⟨h2.2, ?_⟩
  dsimp only
  rcases (tokens (· = ','.toUInt8) ((messageHeader msg).take 255))[5]? with _ | tok
  · show (0 : ℤ) < 2 ^ 31
    norm_num
  · exact atoi_lt tok

theorem processBody_cases (c : Clib) (l : RinexLogger) (week : ℤ) (rounded : Float64)
    (body : List UInt8) :
    l.processBody c week rounded body = l ∨
      ∃ sats, sats ≠ [] ∧ (∀ s ∈ sats, LegalSat s) ∧
        l.processBody c week rounded body = l.logEpoch c week rounded sats := by
  unfold processBody
  split
  · exact Or.inl rfl
  · next tok toks _ =>
    dsimp only
    split_ifs with hnum hempty
    · exact Or.inl rfl
    · exact Or.inl rfl
    · refine Or.inr ⟨_, ?_, (observations_legal c _ _ fun _ h => absurd h List.not_mem_nil).1, rfl⟩
      rwa [List.isEmpty_iff] at hempty

/-- With the systems of its own satellites an epoch has some to write. -/
theorem epochSats_ne_nil {l : RinexLogger} {sats : List SatObs} (hne : sats ≠ [])
    (h : ∀ s ∈ sats, LegalSat s) (hmask : l.presentMask = systemMask sats) :
    l.epochSats sats ≠ [] := by
  obtain ⟨s, rest, rfl⟩ := List.exists_cons_of_ne_nil hne
  have hs := h s List.mem_cons_self
  obtain ⟨d, hd, hsys⟩ := hs.system
  have hhas : hasSystem l.presentMask s.system = true := by
    rw [hmask, ← hsys]
    exact (hasSystem_systemMask h hd).mpr ⟨s, List.mem_cons_self, hsys.symm⟩
  obtain ⟨id, hid⟩ := Option.isSome_iff_exists.mp hs
  unfold epochSats
  rw [List.filterMap_cons]
  simp only [hhas, hid, Bool.not_true, Bool.false_eq_true, if_false, Option.map_some]
  exact List.cons_ne_nil _ _

/-! ### Records -/

/-- What is written of an epoch. -/
structure Written where
  week : ℤ
  tow : Float64
  sats : List (SatObs × List UInt8)

def Written.text (c : Clib) (e : Written) : List UInt8 × List (List UInt8) :=
  epochOf (gpsToCalendar c e.week e.tow) e.sats

/-- The path of a file that begins with an epoch. -/
def Written.path (c : Clib) (e : Written) : List UInt8 := fileName c (gpsToCalendar c e.week e.tow)

/-- `rotate_if_needed` finds a file that began with `first` too old for `e`. -/
def tooOld (first e : Written) : Bool :=
  (ofInt kSecondsPerFile).le
    (((ofInt (e.week - first.week)).mul (ofInt 604800)).add (e.tow.sub first.tow))

/-- The epochs of a file. -/
structure FileRecord {ε : Type} (P : ε → ε → Prop) where
  first : ε
  rest : List ε
  kept : ∀ e ∈ rest, P first e

variable {ε : Type} {P : ε → ε → Prop}

namespace FileRecord

/-- All epochs of a file. -/
def entries (r : FileRecord P) : List ε := r.first :: r.rest

def path (w : ε → Written) (c : Clib) (r : FileRecord P) : List UInt8 := (w r.first).path c

def begun (e : ε) : FileRecord P := ⟨e, [], fun _ h => absurd h List.not_mem_nil⟩

def add (r : FileRecord P) (e : ε) (h : P r.first e) : FileRecord P where
  first := r.first
  rest := r.rest ++ [e]
  kept := by
    intro x hx
    rcases List.mem_append.mp hx with hx | hx
    · exact r.kept x hx
    · rw [List.mem_singleton.mp hx]
      exact h

@[simp] theorem first_add (r : FileRecord P) (e : ε) (h : P r.first e) : (r.add e h).first = r.first := rfl

@[simp] theorem entries_add (r : FileRecord P) (e : ε) (h : P r.first e) :
    (r.add e h).entries = r.entries ++ [e] := rfl

end FileRecord

/-! ### What the files hold -/

variable (w : ε → Written)

/-- A file holds a record: it has its path and its epochs. -/
def HoldsRecord (c : Clib) (file : List UInt8 × List UInt8) (r : FileRecord P) : Prop :=
  file.1 = r.path w c ∧ ∃ x : Contents, file.2 = x.bytes ∧
    x.epochs = r.entries.map fun e => (w e).text c

/-- The files of the logger, the open one last. -/
def filesOf (l : RinexLogger) : List (List UInt8 × List UInt8) :=
  l.closed ++ (l.file.map fun f => (l.currentFile, f.bytes)).toList

/-- The logger has `r` open. -/
structure Open (c : Clib) (l : RinexLogger) (r : FileRecord P) (x : Contents) : Prop where
  holds : HoldsFile l x
  epochs : x.epochs = r.entries.map fun e => (w e).text c
  path : l.currentFile = r.path w c
  week : l.gpsWeekOpen = (w r.first).week
  tow : l.towOpen = (w r.first).tow

/-- The files are those of `R`, of which the last may be open. -/
inductive Files (c : Clib) (l : RinexLogger) (R : List (FileRecord P)) : Prop
  | closed (hfile : l.file = none) (hclosed : List.Forall₂ (HoldsRecord w c) l.closed R)
  | opened (old : List (FileRecord P)) (r : FileRecord P) (x : Contents) (hR : R = old ++ [r])
      (hclosed : List.Forall₂ (HoldsRecord w c) l.closed old) (hopen : Open w c l r x)

/-- No file is open, or the one that is is too old for `e`. -/
def Ended (l : RinexLogger) (R : List (FileRecord P)) (e : Written) : Prop :=
  l.file = none ∨ ∃ old r, R = old ++ [r] ∧ tooOld (w r.first) e = true

/-- **What becomes of the records** when an epoch `e` is logged; with its satellites it is one that `make`
gives. -/
inductive Logged (make : List (SatObs × List UInt8) → ε) (e : Written) (l l' : RinexLogger)
    (R : List (FileRecord P)) : List (FileRecord P) → Prop
  | lost (hended : Ended w l R e) (hfile : l'.file = none) : Logged make e l l' R R
  | begun (hended : Ended w l R e) (hfile : l'.file ≠ none) (sats : List (SatObs × List UInt8)) :
    Logged make e l l' R (R ++ [.begun (make sats)])
  | unchanged (hfile : l'.file ≠ none) : Logged make e l l' R R
  | added (hfile : l'.file ≠ none) (old : List (FileRecord P)) (r : FileRecord P)
      (sats : List (SatObs × List UInt8)) (hR : R = old ++ [r]) (hkept : P r.first (make sats)) :
    Logged make e l l' R (old ++ [r.add (make sats) hkept])

variable {w} {c : Clib} {l : RinexLogger} {r : FileRecord P} {R : List (FileRecord P)} {x : Contents}

theorem Open.file_ne (h : Open w c l r x) : l.file ≠ none := by
  rw [h.holds.file]
  exact Option.some_ne_none _

theorem Open.holdsRecord (h : Open w c l r x) : HoldsRecord w c (l.currentFile, x.bytes) r :=
  ⟨h.path, x, rfl, h.epochs⟩

theorem Files.filesOf (h : Files w c l R) : List.Forall₂ (HoldsRecord w c) (filesOf l) R := by
  unfold FileRecords.filesOf
  rcases h with ⟨hfile, hclosed⟩ | ⟨old, r, x, rfl, hclosed, hopen⟩
  · rw [hfile, Option.map_none, Option.toList_none, List.append_nil]
    exact hclosed
  · rw [hopen.holds.file, Option.map_some, Option.toList_some]
    exact List.rel_append hclosed (.cons hopen.holdsRecord .nil)

theorem Files.congr {l' : RinexLogger} (h : Files w c l R) (hfile : l'.file = l.file)
    (hclosed : l'.closed = l.closed) (hpos : l'.lastObsPos = l.lastObsPos)
    (hname : l'.currentFile = l.currentFile) (hweek : l'.gpsWeekOpen = l.gpsWeekOpen)
    (htow : l'.towOpen = l.towOpen) : Files w c l' R := by
  rcases h with ⟨hnone, hold⟩ | ⟨old, r, x, hR, hold, hopen⟩
  · exact .closed (hfile.trans hnone) (hclosed ▸ hold)
  · exact .opened old r x hR (hclosed ▸ hold) ⟨⟨hfile.trans hopen.holds.file, hpos.trans hopen.holds.slot,
      hopen.holds.header, hopen.holds.room⟩, hopen.epochs, hname.trans hopen.path,
      hweek.trans hopen.week, htow.trans hopen.tow⟩

/-! ### Steps -/

theorem Open.close (h : Open w c l r x) {old : List (FileRecord P)}
    (hclosed : List.Forall₂ (HoldsRecord w c) l.closed old) :
    (l.closeFile c).file = none ∧
      List.Forall₂ (HoldsRecord w c) (l.closeFile c).closed (old ++ [r]) := by
  have hclose := closeFile_eq c h.holds
  have hclosed' := congrArg RinexLogger.closed hclose
  refine ⟨congrArg RinexLogger.file hclose, ?_⟩
  dsimp only at hclosed'
  generalize timeRecord _ _ = record at hclosed'
  rw [hclosed']
  exact List.rel_append hclosed (.cons ⟨h.path, x.stamp record, rfl, h.epochs⟩ .nil)

theorem Files.close (h : Files w c l R) :
    (l.closeFile c).file = none ∧ List.Forall₂ (HoldsRecord w c) (l.closeFile c).closed R := by
  rcases h with ⟨hfile, hclosed⟩ | ⟨old, r, x, rfl, hclosed, hopen⟩
  · rw [closeFile_none c hfile]
    exact ⟨hfile, hclosed⟩
  · exact hopen.close hclosed

/-- **Rotation**: no file is open then, or the one that is not too old. -/
theorem Files.rotate (h : Files w c l R) (e : Written) :
    ((l.rotateIfNeeded c e.week e.tow).file = none ∧
        List.Forall₂ (HoldsRecord w c) (l.rotateIfNeeded c e.week e.tow).closed R ∧ Ended w l R e) ∨
      l.rotateIfNeeded c e.week e.tow = l ∧ ∃ old r x, R = old ++ [r] ∧
        List.Forall₂ (HoldsRecord w c) l.closed old ∧ Open w c l r x ∧
          tooOld (w r.first) e = false := by
  rcases h with ⟨hfile, hclosed⟩ | ⟨old, r, x, rfl, hclosed, hopen⟩
  · unfold rotateIfNeeded
    rw [hfile, Option.isNone_none, if_pos rfl]
    exact Or.inl ⟨hfile, hclosed, Or.inl hfile⟩
  · have hrotate : l.rotateIfNeeded c e.week e.tow =
        if tooOld (w r.first) e = true then l.closeFile c else l := by
      unfold rotateIfNeeded tooOld
      rw [hopen.holds.file, hopen.week, hopen.tow]
      rfl
    rw [hrotate]
    by_cases hold : tooOld (w r.first) e = true
    · rw [if_pos hold]
      obtain ⟨hfile, hclosed'⟩ := hopen.close hclosed
      exact Or.inl ⟨hfile, hclosed', Or.inr ⟨old, r, rfl, hold⟩⟩
    · rw [if_neg hold]
      exact Or.inr ⟨rfl, old, r, x, rfl, hclosed, hopen, Bool.eq_false_iff.mpr hold⟩

theorem Open.write (h : Open w c l r x) {e : ε} (hkept : P r.first e) {week : ℤ} {tow : Float64}
    {sats : List SatObs} (he : w e = ⟨week, tow, l.epochSats sats⟩) (hne : l.epochSats sats ≠ []) :
    (∃ x', Open w c (l.writeEpoch c week tow sats) (r.add e hkept) x') ∧
      (l.writeEpoch c week tow sats).closed = l.closed := by
  obtain ⟨x', hholds, hepochs, hname, hweek, htow, hclosed⟩ := writeEpoch_open c h.holds week tow hne
  refine ⟨⟨x', hholds, ?_, hname.trans h.path, hweek.trans h.week, htow.trans h.tow⟩, hclosed⟩
  rw [hepochs, h.epochs, FileRecord.entries_add, List.map_append, List.map_singleton, he]
  rfl

theorem open_new (hopens : l.opens 0 = true) {e : ε} {week : ℤ} {tow : Float64} {sats : List SatObs}
    (he : w e = ⟨week, tow, l.epochSats sats⟩) (hne : l.epochSats sats ≠ []) :
    (∃ x, Open w c ((l.openFile c week tow).writeEpoch c week tow sats) (.begun e : FileRecord P) x) ∧
      ((l.openFile c week tow).writeEpoch c week tow sats).closed = l.closed := by
  obtain ⟨x, hholds, hepochs, hname, hweek, htow, hclosed⟩ := writeEpoch_openFile c hopens week tow hne
  have hfirst : w (FileRecord.begun e : FileRecord P).first = ⟨week, tow, l.epochSats sats⟩ := he
  refine ⟨⟨x, hholds, ?_, ?_, ?_, ?_⟩, hclosed⟩
  · show x.epochs = [(w e).text c]
    rw [hepochs, he]
    rfl
  · rw [hname, FileRecord.path, hfirst]
    rfl
  · rw [hweek, hfirst]
  · rw [htow, hfirst]

/-- **A logged epoch** goes into the open file, begins one, or is lost. -/
theorem Files.logEpoch (h : Files w c l R) (make : List (SatObs × List UInt8) → ε) {week : ℤ}
    {tow : Float64} (hmake : ∀ sats, w (make sats) = ⟨week, tow, sats⟩)
    (hkept : ∀ first sats, tooOld (w first) ⟨week, tow, []⟩ = false → P first (make sats))
    {sats : List SatObs} (hne : sats ≠ []) (hlegal : ∀ s ∈ sats, LegalSat s) :
    ∃ R', Files w c (l.logEpoch c week tow sats) R' ∧
      Logged w make ⟨week, tow, []⟩ l (l.logEpoch c week tow sats) R R' := by
  obtain ⟨l₁, l₂, hl₁, hl₂, hcases⟩ := logEpoch_cases c l week tow sats
  rcases h.rotate ⟨week, tow, []⟩ with
    ⟨hfile, hclosed, hended⟩ | ⟨hsame, old, r, x, rfl, hclosed, hopen, hyoung⟩
  · dsimp only at hfile hclosed
    rw [← hl₁] at hfile hclosed
    have hfile₂ : l₂.file = none := by rw [hl₂]; exact hfile
    have hclosed₂ : l₂.closed = l₁.closed := by rw [hl₂]
    have hopens₂ : l₂.opens = l₁.opens := by rw [hl₂]
    rcases hcases with ⟨hsome, -⟩ | ⟨-, hopens, heq⟩ | ⟨-, hopens, heq⟩
    · exact absurd hfile hsome
    · -- the new file cannot be opened
      rw [heq, openFile_none c (by rw [hopens₂, hopens])]
      exact ⟨R, .closed hfile₂ (hclosed₂ ▸ hclosed), .lost hended hfile₂⟩
    · have hsats : l₂.epochSats sats ≠ [] := epochSats_ne_nil hne hlegal (by rw [hl₂])
      obtain ⟨⟨x, hx⟩, hclosed'⟩ := open_new (w := w) (P := P) (c := c) (l := l₂)
        (by rw [hopens₂, hopens]) (hmake _) hsats
      rw [heq]
      refine ⟨_, .opened R _ x rfl ?_ hx, .begun hended hx.file_ne _⟩
      rw [hclosed', hclosed₂]
      exact hclosed
  · dsimp only at hsame
    rw [← hl₁] at hsame
    rcases hcases with ⟨-, heq⟩ | ⟨hnone, -, -⟩ | ⟨hnone, -, -⟩
    · rw [heq, hsame]
      by_cases hsats : l.epochSats sats = []
      · rw [writeEpoch_none c week tow hsats]
        exact ⟨_, .opened old r x rfl hclosed hopen, .unchanged hopen.file_ne⟩
      · obtain ⟨⟨x', hx'⟩, hclosed'⟩ := hopen.write (hkept _ (l.epochSats sats) hyoung) (hmake _) hsats
        refine ⟨_, .opened old _ x' rfl ?_ hx', .added hx'.file_ne old r _ rfl _⟩
        rw [hclosed']
        exact hclosed
    · rw [hsame, hopen.holds.file] at hnone
      cases hnone
    · rw [hsame, hopen.holds.file] at hnone
      cases hnone

end GpsBase.Rinex.FileRecords
