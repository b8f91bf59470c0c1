import GpsBase.Survey.Manager

/-! # The survey estimates what it says

The fixes of a survey as a list, and what is estimated from them as a whole: the means, the minutes in
which there are fixes, the mean of each minute but the last, and the squared standard error of these in
metres. The manager's running numbers are those of the list (`Estimates`), step by step (`Open.step`), and
the survey ends with the first fix at which the list is `Complete` (`survey_estimator`). Times are
less than `2 ^ 32` seconds after the start; later the seconds of the manager begin again at zero. -/

namespace GpsBase.Survey.Estimator

open GpsBase.Lib.Welford GpsBase.Survey.Manager GpsBase.Survey.Manager.SurveyManager

variable {K : Type*}

/-! ### The fixes as a whole -/

section

variable (started : ℤ)

/-- Fixes in the order of their times, all within `2 ^ 32` seconds of the start. -/
structure Timely (fs : List (Manager.Fix K)) : Prop where
  order : fs.Pairwise fun f g => f.now ≤ g.now
  after : ∀ f ∈ fs, started ≤ f.now
  bound : ∀ f ∈ fs, f.now - started < 2 ^ 32 * 1000000

def seconds (f : Manager.Fix K) : ℕ := ((f.now - started) / 1000000).toNat

def minute (f : Manager.Fix K) : ℕ := seconds started f / 60

/-- The minutes with fixes, the latest first. -/
def minutes (fs : List (Manager.Fix K)) : List ℕ := (fs.map (minute started)).reverse.dedup

def fixesOf (fs : List (Manager.Fix K)) (k : ℕ) : List (Manager.Fix K) :=
  fs.filter fun f => minute started f = k

variable [Field K]

def meanOf (fs : List (Manager.Fix K)) : Position K :=
  ⟨average (fs.map fun f => f.lat), average (fs.map fun f => f.lon), average (fs.map fun f => f.height)⟩

/-- **The block values**: the mean of each minute but the last. -/
def blockValues (fs : List (Manager.Fix K)) : List (Position K) :=
  (minutes started fs).tail.reverse.map fun k => meanOf (fixesOf started fs k)

end

/-- The squared standard error of the mean of some values. -/
def squaredError [Field K] (xs : List K) : K := deviation xs / (xs.length * ((xs.length : K) - 1))

section

variable [Field K] [LinearOrder K] (A : Analysis K) (started : ℤ)

/-- The squared standard error of positions in square metres, at a latitude. -/
def squaredError3 (ps : List (Position K)) (lat : K) : K :=
  squaredError (ps.map Position.lat) * kMetresPerDegree ^ 2 +
    squaredError (ps.map Position.lon) * (kMetresPerDegree * A.cos (lat * A.pi / (180 : ℕ))) ^ 2 +
    squaredError (ps.map Position.height)

/-- **The survey is complete** with these fixes: the last is at least 300 s after the start, there are five
block values at least, and their squared standard error is at most a quarter. -/
def Complete (fs : List (Manager.Fix K)) : Prop :=
  ∃ f, fs.getLast? = some f ∧ 300 ≤ seconds started f ∧ 5 ≤ (minutes started fs).length - 1 ∧
    squaredError3 A (blockValues started fs) f.lat ≤ 1 / 4

end

/-! ### The estimates -/

section

variable [Field K]

/-- A coordinate's running numbers are those of the fixes and of the block values. -/
structure Estimated (x : Position K → K) (started : ℤ) (fs : List (Manager.Fix K)) (a : Axis K) : Prop where
  all : Tracks a.all (fs.map fun f => x f.toPosition)
  block : Tracks a.block ((blockValues started fs).map x)

/-- **What the manager knows** of the fixes so far. -/
structure Estimates (started : ℤ) (fs : List (Manager.Fix K)) (s : SurveyManager K) : Prop where
  samples : s.samples = fs.length
  lat : Estimated Position.lat started fs s.lat
  lon : Estimated Position.lon started fs s.lon
  height : Estimated Position.height started fs s.height
  blockCount : s.blockCount = (minutes started fs).length - 1
  commits : s.commits = blockValues started fs

/-- The fixes of the block that is open. -/
def current (started : ℤ) (fs : List (Manager.Fix K)) : List (Manager.Fix K) :=
  fixesOf started fs ((minutes started fs).headD UINT32_MAX)

/-- The sum of a coordinate over the block that is open. -/
def Summed (x : Position K → K) (started : ℤ) (fs : List (Manager.Fix K)) (a : Axis K) : Prop :=
  a.blockSum = ((current started fs).map fun f => x f.toPosition).sum

/-- The same with the block that is open. -/
structure Open (started : ℤ) (fs : List (Manager.Fix K)) (s : SurveyManager K) : Prop
    extends Estimates started fs s where
  startedUs : s.startedUs = started
  blockIndex : s.blockIndex = (minutes started fs).headD UINT32_MAX
  blockSamples : s.blockSamples = (current started fs).length
  latSum : Summed Position.lat started fs s.lat
  lonSum : Summed Position.lon started fs s.lon
  heightSum : Summed Position.height started fs s.height

theorem updateWelford_eq (value : K) (count : ℕ) (w : Running K) :
    updateWelford value count w = w.update value count := rfl

end

/-! ### Minutes -/

section

variable {started : ℤ} {fs : List (Manager.Fix K)} {f : Manager.Fix K}

theorem mem_minutes {k : ℕ} : k ∈ minutes started fs ↔ ∃ g ∈ fs, minute started g = k := by
  unfold minutes
  rw [List.mem_dedup, List.mem_reverse, List.mem_map]

theorem minutes_append (fs : List (Manager.Fix K)) (f : Manager.Fix K) : minutes started (fs ++ [f]) =
    if minute started f ∈ minutes started fs then minutes started fs
    else minute started f :: minutes started fs := by
  have hmem : minute started f ∈ minutes started fs ↔ minute started f ∈ (fs.map (minute started)).reverse :=
    List.mem_dedup
  unfold minutes at hmem ⊢
  rw [List.map_append, List.reverse_append, List.map_singleton, List.reverse_singleton,
    List.singleton_append]
  split_ifs with h
  · exact List.dedup_cons_of_mem (hmem.mp h)
  · exact List.dedup_cons_of_notMem fun hno => h (hmem.mpr hno)

theorem minute_le {g : Manager.Fix K} (h : g.now ≤ f.now) : minute started g ≤ minute started f := by
  unfold minute seconds
  refine Nat.div_le_div_right (Int.toNat_le_toNat ?_)
  exact Int.ediv_le_ediv (by omega) (by omega)

theorem Timely.init (h : Timely started (fs ++ [f])) : Timely started fs :=
  ⟨(List.pairwise_append.mp h.order).1, fun g hg => h.after g (List.mem_append_left _ hg),
    fun g hg => h.bound g (List.mem_append_left _ hg)⟩

theorem Timely.minute_le (h : Timely started (fs ++ [f])) {k : ℕ} (hk : k ∈ minutes started fs) :
    k ≤ minute started f := by
  obtain ⟨g, hg, rfl⟩ := mem_minutes.mp hk
  exact Estimator.minute_le ((List.pairwise_append.mp h.order).2.2 g hg f (List.mem_singleton_self f))

theorem Timely.sorted (h : Timely started fs) : (minutes started fs).Pairwise fun j k => k < j := by
  induction fs using List.reverseRecOn with
  | nil => exact List.Pairwise.nil
  | append_singleton fs f ih =>
    rw [minutes_append]
    split_ifs with hmem
    · exact ih h.init
    · refine List.pairwise_cons.mpr ⟨fun k hk => ?_, ih h.init⟩
      have hle := h.minute_le hk
      have hne : k ≠ minute started f := by
        rintro rfl
        exact hmem hk
      omega

theorem Timely.head_eq (h : Timely started (fs ++ [f])) {k : ℕ} {ks : List ℕ}
    (hminutes : minutes started fs = k :: ks) (hmem : minute started f ∈ minutes started fs) :
    minute started f = k := by
  have hsorted := h.init.sorted
  have hle := h.minute_le (hminutes ▸ List.mem_cons_self : k ∈ minutes started fs)
  rw [hminutes] at hsorted hmem
  rcases List.mem_cons.mp hmem with heq | hmem
  · exact heq
  · have hlt := (List.pairwise_cons.mp hsorted).1 _ hmem
    omega

theorem fixesOf_append_of_ne {k : ℕ} (h : minute started f ≠ k) :
    fixesOf started (fs ++ [f]) k = fixesOf started fs k := by
  unfold fixesOf
  simp [List.filter_append, h]

theorem fixesOf_append_self : fixesOf started (fs ++ [f]) (minute started f) =
    fixesOf started fs (minute started f) ++ [f] := by
  unfold fixesOf
  simp [List.filter_append]

theorem fixesOf_eq_nil {k : ℕ} (h : k ∉ minutes started fs) : fixesOf started fs k = [] := by
  refine List.filter_eq_nil_iff.mpr fun g hg hk => h (mem_minutes.mpr ⟨g, hg, ?_⟩)
  exact of_decide_eq_true hk

theorem fixesOf_ne_nil {k : ℕ} (h : k ∈ minutes started fs) : fixesOf started fs k ≠ [] := by
  obtain ⟨g, hg, rfl⟩ := mem_minutes.mp h
  refine List.ne_nil_of_mem (a := g) (List.mem_filter.mpr ⟨hg, ?_⟩)
  exact decide_eq_true rfl

/-! ### A fix more -/

variable [Field K]

theorem blockValues_same (h : Timely started (fs ++ [f])) (hmem : minute started f ∈ minutes started fs) :
    blockValues started (fs ++ [f]) = blockValues started fs := by
  unfold blockValues
  rw [minutes_append, if_pos hmem]
  refine List.map_congr_left fun k hk => ?_
  rcases hminutes : minutes started fs with _ | ⟨j, ks⟩
  · rw [hminutes] at hmem
    cases hmem
  · have hhead := h.head_eq hminutes hmem
    have hsorted := h.init.sorted
    rw [hminutes] at hsorted hk
    have hlt := (List.pairwise_cons.mp hsorted).1 k (List.mem_reverse.mp hk)
    rw [fixesOf_append_of_ne (by omega)]

theorem blockValues_new {k : ℕ} {ks : List ℕ} (hminutes : minutes started fs = k :: ks)
    (hmem : minute started f ∉ minutes started fs) :
    blockValues started (fs ++ [f]) = blockValues started fs ++ [meanOf (fixesOf started fs k)] := by
  have hsame : ∀ j ∈ minutes started fs, fixesOf started (fs ++ [f]) j = fixesOf started fs j := by
    intro j hj
    refine fixesOf_append_of_ne ?_
    rintro rfl
    exact hmem hj
  unfold blockValues
  rw [minutes_append, if_neg hmem, hminutes, List.tail_cons, List.tail_cons, List.reverse_cons,
    List.map_append, List.map_singleton]
  rw [hsame k (hminutes ▸ List.mem_cons_self)]
  congr 1
  refine List.map_congr_left fun j hj => ?_
  rw [hsame j (hminutes ▸ List.mem_cons_of_mem _ (List.mem_reverse.mp hj))]

theorem blockValues_first (hminutes : minutes started fs = []) :
    blockValues started (fs ++ [f]) = [] ∧ blockValues started fs = [] := by
  unfold blockValues
  rw [minutes_append, hminutes]
  simp

theorem length_blockValues (started : ℤ) (fs : List (Manager.Fix K)) :
    (blockValues started fs).length = (minutes started fs).length - 1 := by
  simp [blockValues]

omit [Field K] in
theorem current_new (hmem : minute started f ∉ minutes started fs) : current started (fs ++ [f]) = [f] := by
  unfold current
  rw [minutes_append, if_neg hmem, List.headD_cons, fixesOf_append_self, fixesOf_eq_nil hmem, List.nil_append]

omit [Field K] in
theorem current_same (h : Timely started (fs ++ [f])) (hmem : minute started f ∈ minutes started fs) :
    current started (fs ++ [f]) = current started fs ++ [f] := by
  unfold current
  rw [minutes_append, if_pos hmem]
  rcases hminutes : minutes started fs with _ | ⟨k, ks⟩
  · rw [hminutes] at hmem
    cases hmem
  · rw [List.headD_cons, ← h.head_eq hminutes hmem, fixesOf_append_self]

section

variable [CharZero K] {x : Position K → K} {a : Axis K}

theorem axis_same (ha : Estimated x started fs a) (hsum : Summed x started fs a)
    (h : Timely started (fs ++ [f])) (hmem : minute started f ∈ minutes started fs) :
    Estimated x started (fs ++ [f]) ((a.sample (x f.toPosition) (fs.length + 1)).add (x f.toPosition)) ∧
      Summed x started (fs ++ [f]) ((a.sample (x f.toPosition) (fs.length + 1)).add (x f.toPosition)) := by
  have hall := ha.all.update (x f.toPosition)
  rw [List.length_map] at hall
  refine ⟨⟨by rw [List.map_append]; exact hall, by rw [blockValues_same h hmem]; exact ha.block⟩, ?_⟩
  unfold Summed at hsum ⊢
  rw [current_same h hmem, List.map_append, List.sum_append, ← hsum]
  show a.blockSum + x f.toPosition = _
  simp

theorem axis_first (ha : Estimated x started fs a) (hsum : Summed x started fs a)
    (hminutes : minutes started fs = []) :
    Estimated x started (fs ++ [f]) ((a.sample (x f.toPosition) (fs.length + 1)).add (x f.toPosition)) ∧
      Summed x started (fs ++ [f]) ((a.sample (x f.toPosition) (fs.length + 1)).add (x f.toPosition)) := by
  have hmem : minute started f ∉ minutes started fs := by
    rw [hminutes]
    exact List.not_mem_nil
  obtain ⟨hnew, hold⟩ := blockValues_first (f := f) hminutes
  have hall := ha.all.update (x f.toPosition)
  have hblock := ha.block
  rw [List.length_map] at hall
  rw [hold] at hblock
  refine ⟨⟨by rw [List.map_append]; exact hall, by rw [hnew]; exact hblock⟩, ?_⟩
  have hzero : a.blockSum = 0 := by
    unfold Summed current at hsum
    rw [hsum, hminutes, List.headD_nil, fixesOf_eq_nil (by rw [hminutes]; exact List.not_mem_nil)]
    rfl
  unfold Summed
  rw [current_new hmem]
  show a.blockSum + x f.toPosition = _
  simp [hzero]

/-- **A coordinate at a new minute**: the open block's mean is committed. -/
theorem axis_new (hx : ∀ gs : List (Manager.Fix K), x (meanOf gs) = average (gs.map fun g => x g.toPosition))
    (ha : Estimated x started fs a) (hsum : Summed x started fs a) {k : ℕ} {ks : List ℕ}
    (hminutes : minutes started fs = k :: ks) (hmem : minute started f ∉ minutes started fs) :
    Estimated x started (fs ++ [f]) (((a.sample (x f.toPosition) (fs.length + 1)).commit
      (current started fs).length ((minutes started fs).length - 1 + 1)).add (x f.toPosition)) ∧
      Summed x started (fs ++ [f]) (((a.sample (x f.toPosition) (fs.length + 1)).commit
        (current started fs).length ((minutes started fs).length - 1 + 1)).add (x f.toPosition)) := by
  have hall := ha.all.update (x f.toPosition)
  have hvalue : a.blockValue (current started fs).length = x (meanOf (fixesOf started fs k)) := by
    have hcurrent : current started fs = fixesOf started fs k := by
      unfold current
      rw [hminutes, List.headD_cons]
    unfold Axis.blockValue
    rw [hsum, hx, hcurrent]
    unfold average
    rw [List.length_map]
  have hblock := ha.block.update (x (meanOf (fixesOf started fs k)))
  rw [List.length_map, length_blockValues, ← hvalue] at hblock
  rw [List.length_map] at hall
  refine ⟨⟨by rw [List.map_append]; exact hall, ?_⟩, ?_⟩
  · rw [blockValues_new hminutes hmem, List.map_append, List.map_singleton, ← hvalue]
    exact hblock
  · unfold Summed
    rw [current_new hmem]
    show 0 + x f.toPosition = _
    simp

end

end

/-! ### The manager -/

section

variable {started : ℤ} {fs : List (Manager.Fix K)} {f : Manager.Fix K}

theorem Timely.seconds_lt (h : Timely started fs) (hf : f ∈ fs) : seconds started f < 2 ^ 32 := by
  have hafter := h.after f hf
  have hbound := h.bound f hf
  unfold seconds
  omega

theorem Timely.minute_lt (h : Timely started fs) {k : ℕ} (hk : k ∈ minutes started fs) : k < UINT32_MAX := by
  obtain ⟨g, hg, rfl⟩ := mem_minutes.mp hk
  have hlt := h.seconds_lt hg
  unfold minute UINT32_MAX
  omega

variable [Field K] {s : SurveyManager K}

theorem Timely.elapsed_eq (h : Timely started fs) (hf : f ∈ fs) (hs : s.startedUs = started) :
    s.elapsed f.now = seconds started f := by
  have hafter := h.after f hf
  have hlt := h.seconds_lt hf
  unfold seconds at hlt ⊢
  unfold SurveyManager.elapsed
  rw [hs, Int.tdiv_eq_ediv_of_nonneg (by omega), Int.emod_eq_of_lt (by omega) (by omega)]

variable [CharZero K]

theorem Open.absorb_first (h : Open started fs s) (hminutes : minutes started fs = []) :
    Open started (fs ++ [f]) (((s.sample f).moveBlock (minute started f)).addToBlock f) := by
  have hmem : minute started f ∉ minutes started fs := by
    rw [hminutes]
    exact List.not_mem_nil
  have hnew : minutes started (fs ++ [f]) = [minute started f] := by
    rw [minutes_append, if_neg hmem, hminutes]
  obtain ⟨hblocks, hnone⟩ := blockValues_first (f := f) hminutes
  have hlat := axis_first (f := f) h.lat h.latSum hminutes
  have hlon := axis_first (f := f) h.lon h.lonSum hminutes
  have hheight := axis_first (f := f) h.height h.heightSum hminutes
  rw [← h.samples] at hlat hlon hheight
  have hindex : (s.sample f).blockIndex = UINT32_MAX := by
    refine h.blockIndex.trans ?_
    rw [hminutes, List.headD_nil]
  unfold SurveyManager.moveBlock
  rw [if_pos hindex]
  refine { samples := ?_, lat := hlat.1, lon := hlon.1, height := hheight.1, blockCount := ?_,
           commits := ?_, startedUs := h.startedUs, blockIndex := ?_, blockSamples := ?_
           latSum := hlat.2, lonSum := hlon.2, heightSum := hheight.2 }
  · rw [List.length_append, List.length_singleton, ← h.samples]
    rfl
  · rw [hnew]
    exact h.blockCount.trans (by rw [hminutes]; rfl)
  · rw [hblocks]
    exact h.commits.trans hnone
  · rw [hnew]
    rfl
  · rw [current_new hmem]
    show s.blockSamples + 1 = 1
    rw [h.blockSamples]
    unfold current
    rw [hminutes, List.headD_nil, fixesOf_eq_nil (by rw [hminutes]; exact List.not_mem_nil)]
    rfl

theorem Open.absorb_same (h : Open started fs s) (ht : Timely started (fs ++ [f]))
    (hmem : minute started f ∈ minutes started fs) :
    Open started (fs ++ [f]) (((s.sample f).moveBlock (minute started f)).addToBlock f) := by
  have hlat := axis_same h.lat h.latSum ht hmem
  have hlon := axis_same h.lon h.lonSum ht hmem
  have hheight := axis_same h.height h.heightSum ht hmem
  rw [← h.samples] at hlat hlon hheight
  have hsame : minutes started (fs ++ [f]) = minutes started fs := by
    rw [minutes_append, if_pos hmem]
  have hindex : (s.sample f).blockIndex = minute started f := by
    refine h.blockIndex.trans ?_
    rcases hminutes : minutes started fs with _ | ⟨k, ks⟩
    · rw [hminutes] at hmem
      cases hmem
    · exact (ht.head_eq hminutes hmem).symm
  have hmax := (ht.init.minute_lt hmem).ne
  unfold SurveyManager.moveBlock
  rw [if_neg (by rw [hindex]; exact hmax), if_neg (not_not.mpr hindex)]
  refine { samples := ?_, lat := hlat.1, lon := hlon.1, height := hheight.1, blockCount := ?_,
           commits := ?_, startedUs := h.startedUs, blockIndex := ?_, blockSamples := ?_
           latSum := hlat.2, lonSum := hlon.2, heightSum := hheight.2 }
  · rw [List.length_append, List.length_singleton, ← h.samples]
    rfl
  · rw [hsame]
    exact h.blockCount
  · rw [blockValues_same ht hmem]
    exact h.commits
  · rw [hsame]
    exact h.blockIndex
  · rw [current_same ht hmem, List.length_append, List.length_singleton, ← h.blockSamples]
    rfl

/-- **A fix in a new minute**: the block that is open is committed. -/
theorem Open.absorb_new (h : Open started fs s) (ht : Timely started (fs ++ [f])) {k : ℕ} {ks : List ℕ}
    (hminutes : minutes started fs = k :: ks) (hmem : minute started f ∉ minutes started fs) :
    Open started (fs ++ [f]) (((s.sample f).moveBlock (minute started f)).addToBlock f) := by
  have hk : k ∈ minutes started fs := hminutes ▸ List.mem_cons_self
  have hcurrent : current started fs = fixesOf started fs k := by
    unfold current
    rw [hminutes, List.headD_cons]
  have hindex : (s.sample f).blockIndex = k := by
    refine h.blockIndex.trans ?_
    rw [hminutes, List.headD_cons]
  have hne : k ≠ minute started f := by
    rintro rfl
    exact hmem hk
  have hsome : (s.sample f).blockSamples ≠ 0 := by
    refine fun hzero => fixesOf_ne_nil hk (List.eq_nil_of_length_eq_zero ?_)
    rw [← hcurrent, ← h.blockSamples]
    exact hzero
  have hlat := axis_new (f := f) (fun _ => rfl) h.lat h.latSum hminutes hmem
  have hlon := axis_new (f := f) (fun _ => rfl) h.lon h.lonSum hminutes hmem
  have hheight := axis_new (f := f) (fun _ => rfl) h.height h.heightSum hminutes hmem
  have hvalue : (⟨s.lat.blockValue s.blockSamples, s.lon.blockValue s.blockSamples,
      s.height.blockValue s.blockSamples⟩ : Position K) = meanOf (fixesOf started fs k) := by
    unfold Axis.blockValue meanOf average
    rw [h.latSum, h.lonSum, h.heightSum, h.blockSamples, hcurrent, List.length_map, List.length_map,
      List.length_map]
  rw [← h.samples, ← h.blockSamples, ← h.blockCount] at hlat hlon hheight
  have hnew : minutes started (fs ++ [f]) = minute started f :: k :: ks := by
    rw [minutes_append, if_neg hmem, hminutes]
  unfold SurveyManager.moveBlock
  rw [if_neg (by rw [hindex]; exact (ht.init.minute_lt hk).ne), if_pos (by rw [hindex]; exact hne)]
  unfold SurveyManager.commitBlock
  rw [if_neg hsome]
  refine { samples := ?_, lat := hlat.1, lon := hlon.1, height := hheight.1, blockCount := ?_,
           commits := ?_, startedUs := h.startedUs, blockIndex := ?_, blockSamples := ?_
           latSum := hlat.2, lonSum := hlon.2, heightSum := hheight.2 }
  · rw [List.length_append, List.length_singleton, ← h.samples]
    rfl
  · rw [hnew]
    show s.blockCount + 1 = _
    rw [h.blockCount, hminutes]
    rfl
  · rw [blockValues_new hminutes hmem, ← h.commits, ← hvalue]
    rfl
  · rw [hnew]
    rfl
  · rw [current_new hmem]
    rfl

/-- **A fix more**, before the test for completion. -/
theorem Open.absorb (h : Open started fs s) (ht : Timely started (fs ++ [f])) :
    Open started (fs ++ [f])
      (((s.sample f).moveBlock ((s.sample f).elapsed f.now / kSurveyBlockTimeSec)).addToBlock f) := by
  have helapsed : (s.sample f).elapsed f.now / kSurveyBlockTimeSec = minute started f :=
    congrArg (· / 60) (ht.elapsed_eq (s := s.sample f) (List.mem_append_right _ (List.mem_singleton_self f))
      h.startedUs)
  rw [helapsed]
  by_cases hmem : minute started f ∈ minutes started fs
  · exact h.absorb_same ht hmem
  · rcases hminutes : minutes started fs with _ | ⟨k, ks⟩
    · exact h.absorb_first hminutes
    · exact h.absorb_new ht hminutes hmem

end

/-! ### Completion -/

section

variable [Field K] [LinearOrder K] [IsStrictOrderedRing K] (A : Analysis K) {started : ℤ}
  {fs : List (Manager.Fix K)} {s : SurveyManager K}

theorem standardError_sq (xs : List K) (h : 2 ≤ xs.length) :
    standardError A (deviation xs) xs.length * standardError A (deviation xs) xs.length =
      squaredError xs := by
  have hlength : (2 : K) ≤ xs.length := by exact_mod_cast h
  have hroot := A.mul_self_sqrt _ (div_nonneg (deviation_nonneg xs) (by linarith : 0 ≤ (xs.length : K) - 1))
  have hcount := A.mul_self_sqrt xs.length (by linarith)
  unfold standardError squaredError
  rw [if_neg (by omega), div_mul_div_comm, hroot, hcount, div_div, mul_comm ((xs.length : K) - 1)]

/-- **The stability squared** is the squared standard error of the block values. -/
theorem stability_sq (h : Estimates started fs s) (hcount : 2 ≤ s.blockCount) (lat : K) :
    0 ≤ s.stability A lat ∧
      s.stability A lat ^ 2 = squaredError3 A (blockValues started fs) lat := by
  have hlength : ∀ x : Position K → K, ((blockValues started fs).map x).length = s.blockCount := by
    intro x
    rw [List.length_map, length_blockValues, h.blockCount]
  have hsq : ∀ {x : Position K → K} {a : Axis K}, Estimated x started fs a →
      standardError A a.block.m2 s.blockCount * standardError A a.block.m2 s.blockCount =
        squaredError ((blockValues started fs).map x) := by
    intro x a ha
    have hxs := standardError_sq A ((blockValues started fs).map x)
      (by rw [hlength]; exact hcount)
    rwa [hlength, ← ha.block.m2] at hxs
  have herrors : ∀ e : Position K, e = s.errors A lat →
      e.lat * e.lat + e.lon * e.lon + e.height * e.height =
        squaredError3 A (blockValues started fs) lat := by
    rintro e rfl
    unfold SurveyManager.errors squaredError3
    rw [if_pos hcount, ← hsq h.lat, ← hsq h.lon, ← hsq h.height]
    ring
  have hnonneg : ∀ e : Position K, 0 ≤ e.lat * e.lat + e.lon * e.lon + e.height * e.height := by
    intro e
    have h1 := mul_self_nonneg e.lat
    have h2 := mul_self_nonneg e.lon
    have h3 := mul_self_nonneg e.height
    linarith
  unfold SurveyManager.stability
  rw [if_pos hcount]
  dsimp only
  exact ⟨A.sqrt_nonneg _ (hnonneg _), by rw [sq, A.mul_self_sqrt _ (hnonneg _), herrors _ rfl]⟩

theorem complete_iff {f : Manager.Fix K} (h : Open started (fs ++ [f]) s) (ht : Timely started (fs ++ [f])) :
    (kSurveyMinTimeSec ≤ s.elapsed f.now ∧ kSurveyMinBlocks ≤ s.blockCount ∧
      s.stability A f.lat ≤ kSurveyMaxStabilityM) ↔ Complete A started (fs ++ [f]) := by
  have hlast : (fs ++ [f]).getLast? = some f := List.getLast?_concat
  rw [ht.elapsed_eq (List.mem_append_right _ (List.mem_singleton_self f)) h.startedUs, h.blockCount]
  have hstable : 5 ≤ (minutes started (fs ++ [f])).length - 1 →
      (s.stability A f.lat ≤ kSurveyMaxStabilityM ↔
        squaredError3 A (blockValues started (fs ++ [f])) f.lat ≤ 1 / 4) := by
    intro hcount
    obtain ⟨hnonneg, hsq⟩ := stability_sq A h.toEstimates (by rw [h.blockCount]; omega) f.lat
    rw [← hsq, show (1 : K) / 4 = kSurveyMaxStabilityM ^ 2 by unfold kSurveyMaxStabilityM; norm_num]
    exact (sq_le_sq₀ hnonneg (by unfold kSurveyMaxStabilityM; positivity)).symm
  unfold Complete
  rw [hlast]
  constructor
  · rintro ⟨htime, hcount, hstability⟩
    exact ⟨f, rfl, htime, hcount, (hstable hcount).mp hstability⟩
  · rintro ⟨g, hg, htime, hcount, herror⟩
    cases hg
    exact ⟨htime, hcount, (hstable hcount).mpr herror⟩

end

/-! ### Surveys -/

/-- What happens in a survey: a fix is read, or the result is asked for. -/
inductive Event (K : Type*)
  | fix (f : Manager.Fix K)
  | take

def fixes (events : List (Event K)) : List (Manager.Fix K) :=
  events.filterMap fun e => match e with
    | .fix f => some f
    | .take => none

section

variable [Field K] [LinearOrder K] (A : Analysis K)

/-- The manager, and the results taken. -/
structure Course (K : Type*) [Zero K] where
  manager : SurveyManager K
  taken : List (SurveyResult K)

def step (w : Course K) : Event K → Course K
  | .fix f => { w with manager := w.manager.parseLine A f }
  | .take =>
    let r := w.manager.takeCompletedResult
    { manager := r.1, taken := w.taken ++ r.2.toList }

def run (w : Course K) (events : List (Event K)) : Course K := events.foldl (step A) w

/-- The result is the mean of the fixes, at the time of the last. -/
structure Reports (started : ℤ) (fs : List (Manager.Fix K)) (r : SurveyResult K) : Prop where
  lat : r.lat = (meanOf fs).lat
  lon : r.lon = (meanOf fs).lon
  height : r.height = (meanOf fs).height
  elapsed : fs.getLast?.map (seconds started) = some r.elapsedSec

/-- The results taken, and the one that can be. -/
def Course.results (w : Course K) : List (SurveyResult K) :=
  w.taken ++ if w.manager.completionPending then [w.manager.result] else []

/-- **The outcome of a survey**: it goes on with all fixes, or ended with the first that completes it, the
fixes up to that one are estimated, and there is one result. -/
inductive Outcome (started : ℤ) (fs : List (Manager.Fix K)) (w : Course K) : Prop
  | collecting (incomplete : ∀ p, p <+: fs → ¬ Complete A started p)
      (state : w.manager.state = .kCollecting) (estimates : Estimates started fs w.manager)
      (results : w.results = [])
  | done (p : List (Manager.Fix K)) (isPrefix : p <+: fs) (complete : Complete A started p)
      (first : ∀ q, q <+: p → Complete A started q → q = p) (state : w.manager.state = .kDone)
      (estimates : Estimates started p w.manager) (reports : Reports started p w.manager.result)
      (results : w.results = [w.manager.result])

variable {A}

theorem not_complete_nil (started : ℤ) : ¬ Complete A started [] := by
  rintro ⟨f, hf, -⟩
  cases hf

theorem take_spec (w : Course K) : (step A w .take).manager.completionPending = false ∧
    (step A w .take).results = w.results ∧
    (step A w .take).manager = { w.manager with completionPending := false } := by
  unfold step SurveyManager.takeCompletedResult Course.results
  dsimp only
  rcases hpending : w.manager.completionPending
  · rw [if_neg Bool.false_ne_true]
    refine ⟨hpending, ?_, ?_⟩
    · simp [hpending]
    · show w.manager = _
      rw [← hpending]
  · refine ⟨rfl, ?_, rfl⟩
    simp

omit [LinearOrder K] in
/-- The estimates are about neither the state nor the result. -/
theorem Open.mark {started : ℤ} {fs : List (Manager.Fix K)} {s : SurveyManager K} (h : Open started fs s)
    (state : SurveyState) (result : SurveyResult K) (pending : Bool) : Open started fs
      { s with state := state, result := result, completionPending := pending } :=
  { samples := h.samples, lat := h.lat, lon := h.lon, height := h.height, blockCount := h.blockCount
    commits := h.commits, startedUs := h.startedUs, blockIndex := h.blockIndex
    blockSamples := h.blockSamples, latSum := h.latSum, lonSum := h.lonSum, heightSum := h.heightSum }

omit [LinearOrder K] in
theorem Estimates.mark {started : ℤ} {fs : List (Manager.Fix K)} {s : SurveyManager K}
    (h : Estimates started fs s)
    (pending : Bool) : Estimates started fs { s with completionPending := pending } :=
  ⟨h.samples, h.lat, h.lon, h.height, h.blockCount, h.commits⟩

omit [LinearOrder K] in
theorem open_start (s : SurveyManager K) (started : ℤ) : Open started [] (s.start started) := by
  have haxis : ∀ x : Position K → K, Estimated x started [] Axis.zero :=
    fun x => ⟨tracks_nil, tracks_nil⟩
  exact { samples := rfl, lat := haxis _, lon := haxis _, height := haxis _, blockCount := rfl,
          commits := rfl, startedUs := rfl, blockIndex := rfl, blockSamples := rfl, latSum := rfl,
          lonSum := rfl, heightSum := rfl }

theorem parseLine_done {s : SurveyManager K} (h : s.state = .kDone) (f : Manager.Fix K) :
    s.parseLine A f = s := by
  unfold SurveyManager.parseLine
  rw [h, if_neg (by decide)]

omit [LinearOrder K] in
theorem absorb_kept (s : SurveyManager K) (f : Manager.Fix K) (k : ℕ) :
    (((s.sample f).moveBlock k).addToBlock f).state = s.state ∧
      (((s.sample f).moveBlock k).addToBlock f).completionPending = s.completionPending := by
  unfold SurveyManager.moveBlock SurveyManager.commitBlock
  split_ifs
  · exact ⟨rfl, rfl⟩
  · exact ⟨rfl, rfl⟩
  · exact ⟨rfl, rfl⟩
  · exact ⟨rfl, rfl⟩

variable [IsStrictOrderedRing K]

/-- What holds while a survey goes on, with the block that is open. -/
def Going (A : Analysis K) (started : ℤ) (fs : List (Manager.Fix K)) (w : Course K) : Prop :=
  (∀ p, p <+: fs → ¬ Complete A started p) ∧ w.manager.state = .kCollecting ∧
    Open started fs w.manager ∧ w.taken = [] ∧ w.manager.completionPending = false

def Ended (A : Analysis K) (started : ℤ) (fs : List (Manager.Fix K)) (w : Course K) : Prop :=
  ∃ p, p <+: fs ∧ Complete A started p ∧ (∀ q, q <+: p → Complete A started q → q = p) ∧
    w.manager.state = .kDone ∧ Estimates started p w.manager ∧ Reports started p w.manager.result ∧
    w.results = [w.manager.result]

/-- **A fix while the survey goes on.** -/
theorem Going.fix {started : ℤ} {fs : List (Manager.Fix K)} {w : Course K} {f : Manager.Fix K}
    (h : Going A started fs w)
    (ht : Timely started (fs ++ [f])) :
    Going A started (fs ++ [f]) (step A w (.fix f)) ∨ Ended A started (fs ++ [f]) (step A w (.fix f)) := by
  obtain ⟨hnone, hstate, hopen, htaken, hpending⟩ := h
  have hnew := hopen.absorb ht
  obtain ⟨hstate', hpending'⟩ := absorb_kept w.manager f
    ((w.manager.sample f).elapsed f.now / kSurveyBlockTimeSec)
  have hiff := complete_iff A hnew ht
  have hpre : ∀ p, p <+: fs ++ [f] → Complete A started p → p = fs ++ [f] := by
    intro p hp hcomplete
    rcases List.prefix_concat_iff.mp hp with hp | hp
    · exact hp
    · exact absurd hcomplete (hnone p hp)
  unfold step SurveyManager.parseLine
  dsimp only
  rw [if_pos hstate]
  unfold SurveyManager.parseBestPosition SurveyManager.complete
  dsimp only
  split_ifs with htest
  · refine Or.inr ⟨fs ++ [f], List.prefix_rfl, hiff.mp htest, hpre, rfl, (hnew.mark _ _ _).toEstimates,
      ⟨hnew.lat.all.mean, hnew.lon.all.mean, hnew.height.all.mean, ?_⟩, ?_⟩
    · rw [List.getLast?_concat, Option.map_some,
        ht.elapsed_eq (List.mem_append_right _ (List.mem_singleton_self f)) hnew.startedUs]
    · unfold Course.results
      rw [htaken]
      rfl
  · refine Or.inl ⟨fun p hp hcomplete => htest (hiff.mpr ?_), hstate'.trans hstate, hnew, htaken,
      hpending'.trans hpending⟩
    rwa [hpre p hp hcomplete] at hcomplete

/-- **A survey's run.** -/
theorem going_or_ended (s : SurveyManager K) (started : ℤ) {events : List (Event K)}
    (ht : Timely started (fixes events)) :
    Going A started (fixes events) (run A ⟨s.start started, []⟩ events) ∨
      Ended A started (fixes events) (run A ⟨s.start started, []⟩ events) := by
  induction events using List.reverseRecOn with
  | nil =>
    refine Or.inl ⟨fun p hp => ?_, rfl, open_start s started, rfl, rfl⟩
    rw [List.prefix_nil.mp hp]
    exact not_complete_nil started
  | append_singleton events e ih =>
    have hrun : run A ⟨s.start started, []⟩ (events ++ [e]) =
        step A (run A ⟨s.start started, []⟩ events) e := by
      unfold run
      rw [List.foldl_append]
      rfl
    rw [hrun]
    cases e with
    | fix f =>
      have hfixes : fixes (events ++ [Event.fix f]) = fixes events ++ [f] := List.filterMap_append
      rw [hfixes] at ht ⊢
      rcases ih ht.init with h | ⟨p, hp, hcomplete, hfirst, hstate, hrest⟩
      · exact h.fix ht
      · refine Or.inr ⟨p, hp.trans (List.prefix_append _ _), hcomplete, hfirst, ?_⟩
        have hsame : step A (run A ⟨s.start started, []⟩ events) (.fix f) =
            run A ⟨s.start started, []⟩ events := by
          show ({ manager := _, taken := _ } : Course K) = _
          rw [parseLine_done hstate]
        rw [hsame]
        exact ⟨hstate, hrest⟩
    | take =>
      have hfixes : fixes (events ++ [Event.take]) = fixes events := by
        unfold fixes
        simp [List.filterMap_append]
      rw [hfixes] at ht ⊢
      obtain ⟨hpending, hresults, hmanager⟩ := take_spec (A := A) (run A ⟨s.start started, []⟩ events)
      rcases ih ht with ⟨hnone, hstate, hopen, htaken, hnot⟩ | ⟨p, hp, hcomplete, hfirst, hstate, hest, hreports, hone⟩
      · refine Or.inl ⟨hnone, ?_, ?_, ?_, hpending⟩
        · rw [hmanager]
          exact hstate
        · rw [hmanager]
          exact hopen.mark _ _ _
        · unfold step SurveyManager.takeCompletedResult
          rw [hnot, if_neg Bool.false_ne_true, htaken]
          rfl
      · refine Or.inr ⟨p, hp, hcomplete, hfirst, ?_, ?_, ?_, ?_⟩
        · rw [hmanager]
          exact hstate
        · rw [hmanager]
          exact hest.mark false
        · rw [hmanager]
          exact hreports
        · rw [hresults, hone, hmanager]

theorem outcome_run (s : SurveyManager K) (started : ℤ) {events : List (Event K)}
    (ht : Timely started (fixes events)) :
    Outcome A started (fixes events) (run A ⟨s.start started, []⟩ events) := by
  rcases going_or_ended (A := A) s started ht with ⟨hnone, hstate, hopen, htaken, hnot⟩ |
    ⟨p, hp, hcomplete, hfirst, hstate, hest, hreports, hone⟩
  · refine .collecting hnone hstate hopen.toEstimates ?_
    unfold Course.results
    rw [htaken, hnot]
    rfl
  · exact .done p hp hcomplete hfirst hstate hest hreports hone

/-- **The survey estimates what it says**: from any start, with any fixes in time and the result asked for
at any moments, and a result that was there is not there after it was taken. -/
theorem survey_estimator (A : Analysis K) (s : SurveyManager K) (started : ℤ) (events : List (Event K))
    (ht : Timely started (fixes events)) :
    Outcome A started (fixes events) (run A ⟨s.start started, []⟩ events) ∧
      (run A ⟨s.start started, []⟩ (events ++ [Event.take])).manager.completionPending = false := by
  refine ⟨outcome_run s started ht, ?_⟩
  unfold run
  rw [List.foldl_append]
  exact (take_spec (A := A) _).1

end

/-! ### A survey that ends, and late fixes -/

/-- The square root and the cosine of real numbers. -/
noncomputable def realAnalysis : Analysis ℝ where
  sqrt := Real.sqrt
  cos := Real.cos
  pi := Real.pi
  sqrt_nonneg := fun x _ => Real.sqrt_nonneg x
  mul_self_sqrt := fun _ hx => Real.mul_self_sqrt hx

noncomputable def unused : SurveyManager ℝ :=
  { state := .kIdle, result := {}, startedUs := 0, completionPending := false, samples := 0, lat := Axis.zero
    lon := Axis.zero, height := Axis.zero, blockIndex := UINT32_MAX, blockSamples := 0, blockCount := 0
    commits := [] }

noncomputable def fixAt (second : ℕ) : Manager.Fix ℝ :=
  { lat := 1, lon := (2 : ℕ), height := 3, now := second * 1000000 }

noncomputable def sixFixes : List (Manager.Fix ℝ) :=
  [fixAt 0, fixAt 60, fixAt 120, fixAt 180, fixAt 240, fixAt 300]

theorem timely_sixFixes : Timely 0 sixFixes := by
  refine ⟨?_, ?_, ?_⟩
  · simp [sixFixes, fixAt]
  · simp [sixFixes, fixAt]
  · simp [sixFixes, fixAt]

theorem complete_sixFixes : Complete realAnalysis 0 sixFixes := by
  have hminutes : minutes 0 sixFixes = [5, 4, 3, 2, 1, 0] := by
    simp [minutes, minute, seconds, sixFixes, fixAt]
  have hblocks : blockValues 0 sixFixes = List.replicate 5 ⟨1, 2, 3⟩ := by
    unfold blockValues
    rw [hminutes]
    simp [fixesOf, meanOf, GpsBase.Lib.Welford.average, minute, seconds, sixFixes, fixAt, List.replicate]
  refine ⟨fixAt 300, rfl, ?_, ?_, ?_⟩
  · simp [seconds, fixAt]
  · rw [hminutes]
    simp
  · rw [hblocks]
    simp [squaredError3, squaredError, GpsBase.Lib.Welford.deviation, GpsBase.Lib.Welford.average,
      List.replicate]
    norm_num

theorem Outcome.state_sixFixes {w : Course ℝ} (h : Outcome realAnalysis 0 sixFixes w) :
    w.manager.state = .kDone ∧ w.results = [w.manager.result] := by
  cases h with
  | collecting incomplete state estimates results =>
    exact absurd complete_sixFixes (incomplete sixFixes List.prefix_rfl)
  | done p isPrefix complete first state estimates reports results => exact ⟨state, results⟩

theorem survey_estimator_sample :
    Outcome realAnalysis 0 sixFixes (run realAnalysis ⟨unused.start 0, []⟩ (sixFixes.map .fix)) ∧
      (run realAnalysis ⟨unused.start 0, []⟩ (sixFixes.map .fix)).manager.state = .kDone ∧
      (run realAnalysis ⟨unused.start 0, []⟩
        (sixFixes.map Event.fix ++ [Event.take])).manager.completionPending = false := by
  have hfixes : fixes (sixFixes.map Event.fix) = sixFixes := rfl
  obtain ⟨houtcome, htaken⟩ := survey_estimator realAnalysis unused 0 (sixFixes.map .fix)
    (hfixes ▸ timely_sixFixes)
  rw [hfixes] at houtcome
  exact ⟨houtcome, houtcome.state_sixFixes.1, htaken⟩

/-- **After `2 ^ 32` seconds** the minutes begin again: two fixes are of two minutes, and no block is
committed. -/
theorem late_fix : (fixes [.fix (fixAt 0), .fix (fixAt (2 ^ 32))]).Pairwise (fun f g => f.now ≤ g.now) ∧
    (run realAnalysis ⟨unused.start 0, []⟩ [.fix (fixAt 0), .fix (fixAt (2 ^ 32))]).manager.blockCount = 0 ∧
    (minutes 0 (fixes [.fix (fixAt 0), .fix (fixAt (2 ^ 32))])).length - 1 = 1 := by
  have hfixes : fixes [.fix (fixAt 0), .fix (fixAt (2 ^ 32))] = [fixAt 0, fixAt (2 ^ 32)] := rfl
  rw [hfixes]
  refine ⟨?_, rfl, ?_⟩
  · simp [fixAt]
  · simp [minutes, minute, seconds, fixAt]

end GpsBase.Survey.Estimator
