import GpsBase.Rinex.Logger
import GpsBase.Rinex.Validator

/-! # Epochs

What the logger makes of the observations of a message: at most 120 satellites, each with an id of its
constellation. The line and the rows it writes for them are an epoch the validator accepts, and the
mask of a first epoch holds the constellations that occur in it. -/

namespace GpsBase.Rinex.Epochs

open GpsBase.Lib.Binary64 GpsBase.Lib.Binary64.Float64 GpsBase.Lib.CText GpsBase.Lib.Lines
open GpsBase.Rinex.SatId GpsBase.Rinex.Logger GpsBase.Rinex.Logger.RinexLogger
open GpsBase.Rinex.Validator

/-! ### Satellites -/

/-- A satellite that has an id. -/
def LegalSat (s : SatObs) : Prop := (formatSatId s.system s.prn.toNat).isSome = true

theorem findOrCreate_legal {prn : UInt16} {system : UInt8} {change : SatObs → SatObs}
    (hid : (formatSatId system prn.toNat).isSome = true)
    (hchange : ∀ s, (change s).prn = s.prn ∧ (change s).system = s.system) :
    ∀ {sats : List SatObs}, (∀ s ∈ sats, LegalSat s) →
      (∀ s ∈ findOrCreate prn system change sats, LegalSat s) ∧
        (findOrCreate prn system change sats).length ≤ sats.length + 1
  | [], _ => by
    refine ⟨fun s hs => ?_, by simp [findOrCreate]⟩
    rw [findOrCreate, List.mem_singleton] at hs
    rw [hs, LegalSat, (hchange _).1, (hchange _).2]
    exact hid
  | s :: sats, h => by
    have hs := h s List.mem_cons_self
    have hsats : ∀ s ∈ sats, LegalSat s := fun s hs => h s (List.mem_cons_of_mem _ hs)
    rw [findOrCreate]
    split_ifs
    · refine ⟨fun s' hs' => ?_, by simp⟩
      rcases List.mem_cons.mp hs' with rfl | hs'
      · rw [LegalSat, (hchange _).1, (hchange _).2]
        exact hs
      · exact hsats s' hs'
    · obtain ⟨ih, hlen⟩ := findOrCreate_legal hid hchange hsats
      refine ⟨fun s' hs' => ?_, by simpa using hlen⟩
      rcases List.mem_cons.mp hs' with rfl | hs'
      · exact hs
      · exact ih s' hs'

theorem keep_id (gloFreq : ℤ) (band : Fin 3) (pref : ℤ) (obs : SigObs) (s : SatObs) :
    (s.keep gloFreq band pref obs).prn = s.prn ∧ (s.keep gloFreq band pref obs).system = s.system := by
  unfold SatObs.keep
  dsimp only
  split_ifs <;> exact ⟨rfl, rfl⟩

theorem observe_legal (c : Clib) {sats : List SatObs} (h : ∀ s ∈ sats, LegalSat s)
    (f : List (List UInt8)) :
    (∀ s ∈ observe c sats f, LegalSat s) ∧ (observe c sats f).length ≤ sats.length + 1 := by
  have hskip : (∀ s ∈ sats, LegalSat s) ∧ sats.length ≤ sats.length + 1 := ⟨h, Nat.le_succ _⟩
  unfold observe
  dsimp only
  generalize UInt16.ofNat _ = prn
  by_cases hprn : prn = 0
  · rw [if_pos hprn]
    exact hskip
  · rw [if_neg hprn]
    split
    · exact hskip
    · rename_i hid
      split
      · exact hskip
      · exact findOrCreate_legal (by rw [hid]; rfl) (keep_id _ _ _ _) h

theorem observations_legal (c : Clib) : ∀ (n : ℕ) (toks : List (List UInt8)) {sats : List SatObs},
    (∀ s ∈ sats, LegalSat s) → (∀ s ∈ observations c n toks sats, LegalSat s) ∧
      (observations c n toks sats).length ≤ sats.length + n
  | 0, _, _, h => ⟨h, le_rfl⟩
  | n + 1, toks, sats, h => by
    rw [observations]
    split_ifs
    · exact ⟨h, by omega⟩
    · obtain ⟨hobs, hlen⟩ := observe_legal c h (toks.take 10)
      obtain ⟨hrest, hlen'⟩ := observations_legal c n (toks.drop 10) hobs
      exact ⟨hrest, by omega⟩

theorem LegalSat.system {s : SatObs} (h : LegalSat s) : ∃ d ∈ systems, d.sys = s.system := by
  obtain ⟨id, hid⟩ := Option.isSome_iff_exists.mp h
  obtain ⟨d, hd, -⟩ := formatSatId_eq_some hid
  exact ⟨d, findSystem_mem hd⟩

/-! ### The mask -/

theorem hasSystem_or (m : UInt8) {a b : SystemDef} (ha : a ∈ systems) (hb : b ∈ systems) :
    hasSystem (m ||| ((1 : UInt8) <<< a.sys)) b.sys = true ↔
      hasSystem m b.sys = true ∨ a.sys = b.sys := by
  have hbits : ∀ a ∈ systems, ∀ b ∈ systems, ((1 : UInt8) <<< a.sys) &&& ((1 : UInt8) <<< b.sys) =
      if a.sys = b.sys then (1 : UInt8) <<< b.sys else 0 := by decide
  have hne : ∀ b ∈ systems, (1 : UInt8) <<< b.sys ≠ 0 := by decide
  have hdistrib : (m ||| ((1 : UInt8) <<< a.sys)) &&& ((1 : UInt8) <<< b.sys) =
      (m &&& ((1 : UInt8) <<< b.sys)) ||| (((1 : UInt8) <<< a.sys) &&& ((1 : UInt8) <<< b.sys)) :=
    UInt8.toBitVec_inj.mp BitVec.and_or_distrib_right
  unfold hasSystem
  rw [decide_eq_true_eq, decide_eq_true_eq, hdistrib, hbits a ha b hb]
  split_ifs with h
  · refine iff_of_true (fun hzero => hne b hb ?_) (Or.inr h)
    rw [UInt8.or_eq_zero_iff] at hzero
    exact hzero.2
  · rw [UInt8.or_zero, or_iff_left h]

theorem hasSystem_foldl {b : SystemDef} (hb : b ∈ systems) : ∀ (sats : List SatObs) (m : UInt8),
    (∀ s ∈ sats, LegalSat s) →
    (hasSystem (sats.foldl (fun mask s =>
      if (findSystem s.system).isSome then mask ||| ((1 : UInt8) <<< s.system) else mask) m)
        b.sys = true ↔ hasSystem m b.sys = true ∨ ∃ s ∈ sats, s.system = b.sys)
  | [], m, _ => by simp
  | s :: sats, m, h => by
    obtain ⟨d, hd, hsys⟩ := (h s List.mem_cons_self).system
    have hfound : ∀ d ∈ systems, (findSystem d.sys).isSome = true := by decide
    rw [List.foldl_cons, ← hsys, if_pos (hfound d hd),
      hasSystem_foldl hb sats _ fun s hs => h s (List.mem_cons_of_mem _ hs), hasSystem_or m hd hb]
    simp only [List.mem_cons, exists_eq_or_imp, hsys, or_assoc]

/-- **The mask of an epoch** holds the systems that occur in it. -/
theorem hasSystem_systemMask {sats : List SatObs} (h : ∀ s ∈ sats, LegalSat s) {b : SystemDef}
    (hb : b ∈ systems) : hasSystem (systemMask sats) b.sys = true ↔ ∃ s ∈ sats, s.system = b.sys := by
  have hzero : ∀ b ∈ systems, hasSystem 0 b.sys = false := by decide
  unfold systemMask
  rw [hasSystem_foldl hb sats 0 h, hzero b hb]
  simp

/-! ### The line of an epoch -/

theorem count_token : ∀ n < 121, (tokens isPySpace (ascii " 0" ++ padInt 3 (n : ℕ) ++
    [lf])).getLast?.bind pyInt = some (n : ℤ) := by decide +kernel

theorem inline_of_numeric {s : List UInt8} (h : ∀ b ∈ s, numeric b = true) : Inline s := by
  refine ⟨fun hm => ?_, fun hm => ?_⟩
  · exact absurd (h lf hm) (by decide)
  · exact absurd (h cr hm) (by decide)

/-- The line before the rows, without its end. -/
def epochText (t : Calendar) (count : ℕ) : List UInt8 :=
  ascii "> " ++ padInt 4 t.Y.toInt ++ padInt 3 t.Mo.toInt ++ padInt 3 t.D.toInt ++
    padInt 3 t.h.toInt ++ padInt 3 t.m.toInt ++ padFixed 11 7 t.s ++ ascii "  0" ++ padInt 3 count

/-- The row of a satellite, without its end. -/
def obsText (sat : SatObs) (id : List UInt8) : List UInt8 :=
  let bands := ((findSystem sat.system).map systemBands).getD 0
  id ++ ((List.finRange 3).filter fun b => b.val < bands).flatMap (fun b =>
    writeObs (sat.sig b).valid (sat.sig b).pseudorange ++
      writeObs (sat.sig b).valid (sat.sig b).carrierPhase ++
      writeObs (sat.sig b).valid (sat.sig b).doppler ++ writeObs (sat.sig b).valid (sat.sig b).cn0)

theorem inline_epochText (t : Calendar) (count : ℕ) : Inline (epochText t count) := by
  have hint : ∀ (w : ℕ) (n : ℤ), Inline (padInt w n) := fun w n => inline_of_numeric (numeric_padInt w n)
  exact (((((((((by decide : Inline (ascii "> ")).append (hint _ _)).append (hint _ _)).append
    (hint _ _)).append (hint _ _)).append (hint _ _)).append
      (inline_of_numeric (numeric_padFixed _ _ _))).append (by decide))).append (hint _ _)

theorem startsEpoch_epochText (t : Calendar) (count : ℕ) :
    startsEpoch (epochText t count ++ [lf]) = true := by
  unfold startsEpoch
  exact decide_eq_true rfl

theorem count_epochText (t : Calendar) {count : ℕ} (h : count < 121) :
    (tokens isPySpace (epochText t count ++ [lf]).tail).getLast?.bind pyInt = some (count : ℤ) := by
  have hsplit : (epochText t count ++ [lf]).tail = (ascii " " ++ padInt 4 t.Y.toInt ++
      padInt 3 t.Mo.toInt ++ padInt 3 t.D.toInt ++ padInt 3 t.h.toInt ++ padInt 3 t.m.toInt ++
        padFixed 11 7 t.s) ++ 32 :: (ascii " 0" ++ padInt 3 count ++ [lf]) := by
    have hzero : ascii "  0" = 32 :: ascii " 0" := by decide
    have hstart : ascii "> " = '>'.toUInt8 :: ascii " " := by decide
    unfold epochText
    rw [hzero, hstart]
    simp only [List.append_assoc, List.cons_append, List.tail_cons]
  have hcount := count_token count h
  have hne : tokens isPySpace (ascii " 0" ++ padInt 3 (count : ℕ) ++ [lf]) ≠ [] := by
    intro hnil
    rw [hnil] at hcount
    cases hcount
  rw [hsplit, tokens_append isPySpace (by decide), List.getLast?_append_of_ne_nil _ hne]
  exact hcount

/-! ### The rows -/

theorem zeroInt_two : ∀ n < 64, zeroInt 2 ((n : ℕ) : ℤ) =
    [UInt8.ofNat (48 + n / 10), UInt8.ofNat (48 + n % 10)] := by decide +kernel

theorem satId_two : ∀ d ∈ systems, ∀ n < 64, 1 ≤ n → ((n : ℕ) : ℤ) ≤ d.maxPrn →
    satId [d.code, UInt8.ofNat (48 + n / 10), UInt8.ofNat (48 + n % 10)] = some (d.code, n) ∧
      n ≤ (maxPrn.lookup d.code).getD 0 := by decide +kernel

theorem inline_writeObs (valid : Bool) (value : Float64) : Inline (writeObs valid value) := by
  unfold writeObs
  split_ifs
  · exact (inline_of_numeric (numeric_padFixed _ _ _)).append (by decide)
  · decide

theorem legalRow_obsText {sat : SatObs} {id : List UInt8}
    (h : formatSatId sat.system sat.prn.toNat = some id) :
    LegalRow (obsText sat id) ∧ ∃ d ∈ systems, d.sys = sat.system ∧
      (obsText sat id).head? = some d.code := by
  obtain ⟨d, hd, prn, h1, h2, rfl⟩ := formatSatId_eq_some h
  obtain ⟨hmem, hsys⟩ := findSystem_mem hd
  have hmax := maxPrn_le d hmem
  obtain ⟨n, rfl⟩ := Int.eq_ofNat_of_zero_le (show 0 ≤ prn by omega)
  have hn : n < 64 := by omega
  have htwo := zeroInt_two n hn
  obtain ⟨hid, hle⟩ := satId_two d hmem n hn (by omega) h2
  refine ⟨⟨?_, d.code, n, ?_, by omega, hle⟩, d, hmem, hsys, rfl⟩
  · refine Inline.append ?_ ?_
    · have hcode : ∀ d ∈ systems, Inline [d.code] := by decide
      exact (hcode d hmem).append (inline_of_numeric (numeric_zeroInt 2 _))
    · exact Inline.flatMap fun b _ => (((inline_writeObs _ _).append (inline_writeObs _ _)).append
        (inline_writeObs _ _)).append (inline_writeObs _ _)
  · unfold obsText
    rw [htwo]
    exact hid

/-! ### An epoch written -/

/-- The epoch of the satellites `sats`. -/
def epochOf (t : Calendar) (sats : List (SatObs × List UInt8)) : List UInt8 × List (List UInt8) :=
  (epochText t sats.length, sats.map fun e => obsText e.1 e.2)

theorem epochLines_epochOf (t : Calendar) (sats : List (SatObs × List UInt8)) :
    epochLines (epochOf t sats) = epochLine t sats.length :: sats.map fun e => obsRow e.1 e.2 := by
  unfold epochLines epochOf
  rw [List.map_map]
  rfl

theorem mem_epochSats {l : RinexLogger} {sats : List SatObs} {e : SatObs × List UInt8} :
    e ∈ l.epochSats sats ↔ e.1 ∈ sats ∧ hasSystem l.presentMask e.1.system = true ∧
      formatSatId e.1.system e.1.prn.toNat = some e.2 := by
  unfold epochSats
  rw [List.mem_filterMap]
  constructor
  · rintro ⟨s, hs, h⟩
    split_ifs at h with hsys
    obtain ⟨id, hid, rfl⟩ := Option.map_eq_some_iff.mp h
    exact ⟨hs, by simpa using hsys, hid⟩
  · rintro ⟨hs, hsys, hid⟩
    refine ⟨e.1, hs, ?_⟩
    rw [hsys, hid]
    rfl

/-- **An epoch is legal** if it is one of at most 120 satellites. -/
theorem legalEpoch_epochOf (t : Calendar) {l : RinexLogger} {sats : List SatObs}
    (h : sats.length ≤ 120) : LegalEpoch (epochOf t (l.epochSats sats)) := by
  have hlen : (l.epochSats sats).length ≤ sats.length := List.length_filterMap_le _ _
  refine ⟨inline_epochText _ _, startsEpoch_epochText _ _, ?_, fun r hr => ?_⟩
  · show _ = some ((((l.epochSats sats).map fun e => obsText e.1 e.2).length : ℕ) : ℤ)
    rw [List.length_map]
    exact count_epochText t (by omega)
  · obtain ⟨e, he, rfl⟩ := List.mem_map.mp hr
    exact (legalRow_obsText (mem_epochSats.mp he).2.2).1

theorem codes_epochOf (t : Calendar) {l : RinexLogger} {sats : List SatObs}
    (h : ∀ s ∈ sats, LegalSat s) (code : UInt8) :
    (∃ r ∈ (epochOf t (l.epochSats sats)).2, r.head? = some code) ↔
      ∃ d ∈ systems, d.code = code ∧ hasSystem l.presentMask d.sys = true ∧
        ∃ s ∈ sats, s.system = d.sys := by
  have hinj : ∀ d ∈ systems, ∀ d' ∈ systems, d.sys = d'.sys → d.code = d'.code := by decide
  constructor
  · rintro ⟨r, hr, hcode⟩
    obtain ⟨e, he, rfl⟩ := List.mem_map.mp hr
    obtain ⟨hs, hsys, hid⟩ := mem_epochSats.mp he
    obtain ⟨-, d, hd, hds, hhead⟩ := legalRow_obsText hid
    rw [hhead] at hcode
    rw [← hds] at hsys
    exact ⟨d, hd, Option.some.inj hcode, hsys, e.1, hs, hds.symm⟩
  · rintro ⟨d, hd, rfl, hsys, s, hs, hds⟩
    obtain ⟨id, hid⟩ := Option.isSome_iff_exists.mp (h s hs)
    obtain ⟨-, d', hd', hds', hhead⟩ := legalRow_obsText hid
    rw [← hds] at hsys
    refine ⟨obsText s id, List.mem_map.mpr ⟨(s, id), mem_epochSats.mpr ⟨hs, hsys, hid⟩, rfl⟩, ?_⟩
    rw [hhead, hinj d' hd' d hd (hds'.trans hds)]

/-! ### A stream -/

/-- **What holds along a stream.** It is enough that it does not depend on the message buffer and is
kept by every epoch logged. -/
theorem feed_induction (c : Clib) {P : RinexLogger → Prop}
    (hbuf : ∀ l msg inMsg, P l → P { l with msg := msg, inMsg := inMsg })
    (hlog : ∀ l week rounded sats, P l → (∀ s ∈ sats, LegalSat s) → sats ≠ [] → sats.length ≤ 120 →
      P (l.logEpoch c week rounded sats))
    (data : List UInt8) {l : RinexLogger} (h : P l) : P (l.feed c data) := by
  have hbody : ∀ l week rounded body, P l → P (processBody c l week rounded body) := by
    intro l week rounded body h
    unfold processBody
    split
    · exact h
    · rename_i tok toks _
      dsimp only
      split_ifs with hnum hnil
      · exact h
      · exact h
      · obtain ⟨hlegal, hlen⟩ := observations_legal c (atoi tok).toNat toks
          fun s (hs : s ∈ []) => absurd hs List.not_mem_nil
        refine hlog _ _ _ _ h hlegal (by simpa using hnil) ?_
        rw [List.length_nil] at hlen
        omega
  have hmessage : ∀ l, P l → P (processMessage c l) := by
    intro l h
    unfold processMessage
    dsimp only
    split_ifs
    · exact h
    · exact h
    · exact h
    · exact hbody _ _ _ _ h
  have hbyte : ∀ l b, P l → P (feedByte c l b) := by
    intro l b h
    unfold feedByte
    dsimp only
    split_ifs
    · exact hbuf _ _ _ h
    · exact h
    · exact hbuf _ _ _ (hmessage _ (hbuf l _ l.inMsg h))
    · exact hbuf l _ _ h
    · exact hbuf l _ l.inMsg h
    · exact hbuf _ _ _ h
  unfold feed
  split_ifs
  · exact h
  · exact List.foldlRecOn (motive := P) data (feedByte c) h fun l hl b _ => hbyte l b hl

end GpsBase.Rinex.Epochs
