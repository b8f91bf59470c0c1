import GpsBase.Lib.CText

/-! # Satellite ids

The table of constellations the logger and its host test share, and the ids it forms: a letter and a
PRN of two digits, within the range of the constellation. -/

namespace GpsBase.Rinex.SatId

open GpsBase.Lib.CText

structure SystemDef where
  sys : UInt8
  code : UInt8
  maxPrn : ℤ
  offset : ℤ
  threshold : ℤ
  obs : List UInt8
  nobs : ℕ
  deriving DecidableEq

/-- `kSysGps` and the other ids of the channel tracking status that have a constellation. -/
def kSysGps : UInt8 := 0

def kSysGlo : UInt8 := 1

def kSysGal : UInt8 := 3

def kSysBds : UInt8 := 4

def kSysQzss : UInt8 := 5

/-- `rinex::systems`, in the order of the header. -/
def systems : List SystemDef :=
  [⟨kSysGps, 'G'.toUInt8, 32, 0, 100000,
      ascii "C1C L1C D1C S1C C2W L2W D2W S2W C5Q L5Q D5Q S5Q", 12⟩,
    ⟨kSysGlo, 'R'.toUInt8, 24, 37, 38, ascii "C1C L1C D1C S1C C2C L2C D2C S2C", 8⟩,
    ⟨kSysGal, 'E'.toUInt8, 36, 0, 100000, ascii "C1C L1C D1C S1C C5Q L5Q D5Q S5Q", 8⟩,
    ⟨kSysBds, 'C'.toUInt8, 63, 140, 141, ascii "C2I L2I D2I S2I C6I L6I D6I S6I", 8⟩,
    ⟨kSysQzss, 'J'.toUInt8, 10, 192, 193, ascii "C1C L1C D1C S1C C2L L2L D2L S2L", 8⟩]

def systemBands (d : SystemDef) : ℕ := d.nobs / 4

def findSystem (sys : UInt8) : Option SystemDef := systems.find? fun d => d.sys = sys

/-- `rinex::format_sat_id`: the id, if the satellite has one. -/
def formatSatId (sys : UInt8) (rawPrn : ℤ) : Option (List UInt8) :=
  match findSystem sys with
  | none => none
  | some d =>
    let prn := if d.threshold ≤ rawPrn then rawPrn - d.offset else rawPrn
    if prn < 1 ∨ d.maxPrn < prn then none else some (d.code :: zeroInt 2 (prn % 100))

theorem findSystem_mem {sys : UInt8} {d : SystemDef} (h : findSystem sys = some d) :
    d ∈ systems ∧ d.sys = sys := by
  have h1 := List.find?_some h
  exact ⟨List.mem_of_find?_eq_some h, by simpa using h1⟩

theorem maxPrn_le : ∀ d ∈ systems, d.maxPrn ≤ 63 := by decide

theorem formatSatId_eq_some {sys : UInt8} {rawPrn : ℤ} {id : List UInt8}
    (h : formatSatId sys rawPrn = some id) :
    ∃ d, findSystem sys = some d ∧ ∃ prn : ℤ, 1 ≤ prn ∧ prn ≤ d.maxPrn ∧
      id = d.code :: zeroInt 2 prn := by
  unfold formatSatId at h
  rcases hd : findSystem sys with _ | d
  · rw [hd] at h
    cases h
  · rw [hd] at h
    dsimp only at h
    generalize (if d.threshold ≤ rawPrn then rawPrn - d.offset else rawPrn) = prn at h
    split_ifs at h with hout
    rw [not_or, not_lt, not_lt] at hout
    have hmax := maxPrn_le d (findSystem_mem hd).1
    refine ⟨d, rfl, prn, hout.1, hout.2, ?_⟩
    rw [Int.emod_eq_of_lt (by omega) (by omega)] at h
    exact (Option.some.inj h).symm

end GpsBase.Rinex.SatId
