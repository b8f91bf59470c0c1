import GpsBase.Lib.Machine
import GpsBase.Lib.Rings

/-! # The console log

`log_buffer` keeps the last 16384 bytes of the console in a ring, with the number of all bytes as a cursor for
readers. A snapshot is a part of the history (`snapshotSince_eq`), and a reader that passes the cursor on
gets the parts one after the other (`Faithful`): what it misses was overwritten, and the snapshot says so
unless it was asked for with the cursor 0. -/

namespace GpsBase.Console.Log

open GpsBase.Lib.Machine GpsBase.Lib.Rings

/-! ### The buffer -/

def kCapacity : ℕ := 16384

theorem kCapacity_pos : 0 < kCapacity := by decide

/-- `g_ring`, `g_head` and `g_count`, and `g_total`. -/
structure LogBuffer where
  ring : Ring UInt8 kCapacity
  total : UInt64

/-- The buffer before the first line. -/
def empty : LogBuffer := ⟨⟨fun _ => 0, place kCapacity_pos 0, 0⟩, 0⟩

def LogBuffer.append (b : LogBuffer) (data : List UInt8) : LogBuffer :=
  data.foldl (fun b byte => ⟨b.ring.push kCapacity_pos byte, b.total + 1⟩) b

structure Snapshot where
  next : UInt64 := 0
  truncated : Bool := false
  text : List UInt8 := []
  deriving DecidableEq

def LogBuffer.snapshotSince (b : LogBuffer) (since : UInt64) : Snapshot :=
  if b.ring.count = 0 ∨ since = b.total then { next := b.total }
  else
    let oldest := b.total - UInt64.ofNat b.ring.count
    let early : Bool := since = 0 || since < oldest
    let start := if early then oldest else if since > b.total then b.total else since
    let truncated := early && since ≠ 0
    let bytes := (b.total - start).toUInt32.toNat
    if bytes = 0 then { next := b.total, truncated := truncated }
    else
      { next := b.total
        truncated := truncated
        text := b.ring.read kCapacity_pos (start - oldest).toUInt32.toNat bytes }

/-! ### Snapshots and the history -/

/-- The buffer after the bytes of a history. -/
structure Logged (b : LogBuffer) (h : List UInt8) : Prop where
  ring : Holds kCapacity_pos b.ring h
  total : b.total = UInt64.ofNat h.length

theorem logged_empty : Logged empty [] := ⟨holds_new kCapacity_pos _, rfl⟩

theorem append_fields (b : LogBuffer) (data : List UInt8) :
    (b.append data).ring = data.foldl (fun r a => r.push kCapacity_pos a) b.ring ∧
      (b.append data).total = b.total + UInt64.ofNat data.length := by
  unfold LogBuffer.append
  induction data generalizing b with
  | nil => exact ⟨rfl, (UInt64.add_zero _).symm⟩
  | cons a data ih =>
    obtain ⟨h1, h2⟩ := ih ⟨b.ring.push kCapacity_pos a, b.total + 1⟩
    refine ⟨h1, h2.trans ?_⟩
    rw [List.length_cons, UInt64.ofNat_add, UInt64.add_assoc, UInt64.add_comm 1]
    rfl

theorem Logged.append {b : LogBuffer} {h : List UInt8} (hb : Logged b h) (data : List UInt8) :
    Logged (b.append data) (h ++ data) := by
  obtain ⟨h1, h2⟩ := append_fields b data
  refine ⟨by rw [h1]; exact hb.ring.pushAll data, ?_⟩
  rw [h2, hb.total, List.length_append, UInt64.ofNat_add]

/-- The first byte of the history that the buffer holds. -/
def oldestOf (h : List UInt8) : ℕ := h.length - min h.length kCapacity

theorem toNat_diff {x y : UInt64} (h : y ≤ x) (hsmall : x.toNat - y.toNat < 2 ^ 32) :
    (x - y).toUInt32.toNat = x.toNat - y.toNat := by
  rw [UInt64.toNat_toUInt32, UInt64.toNat_sub_of_le _ _ h, Nat.mod_eq_of_lt hsmall]

theorem Logged.toNat_total {b : LogBuffer} {h : List UInt8} (hb : Logged b h) (hlen : h.length < 2 ^ 64) :
    b.total.toNat = h.length := by
  rw [hb.total, UInt64.toNat_ofNat_of_lt' hlen]

/-- The first byte the buffer holds, as the source computes it. -/
theorem Logged.toNat_oldest {b : LogBuffer} {h : List UInt8} (hb : Logged b h) (hlen : h.length < 2 ^ 64) :
    (b.total - UInt64.ofNat b.ring.count).toNat = oldestOf h := by
  have htotal := hb.toNat_total hlen
  have hcount : b.ring.count = min h.length kCapacity := hb.ring.count
  have hle : min h.length kCapacity ≤ h.length := min_le_left _ _
  have hcountNat : (UInt64.ofNat b.ring.count).toNat = b.ring.count :=
    UInt64.toNat_ofNat_of_lt' (by rw [hcount]; exact lt_of_le_of_lt hle hlen)
  rw [UInt64.toNat_sub_of_le _ _ (UInt64.le_iff_toNat_le.mpr (by omega)), htotal, hcountNat, hcount]
  rfl

theorem read_from {b : LogBuffer} {h : List UInt8} (hb : Logged b h) (hlen : h.length < 2 ^ 64)
    {start : UInt64} (hold : oldestOf h ≤ start.toNat) (hstart : start.toNat ≤ h.length) (truncated : Bool) :
    (if (b.total - start).toUInt32.toNat = 0 then { next := b.total, truncated := truncated }
      else { next := b.total
             truncated := truncated
             text := b.ring.read kCapacity_pos
               (start - (b.total - UInt64.ofNat b.ring.count)).toUInt32.toNat
               (b.total - start).toUInt32.toNat } : Snapshot) =
      { next := UInt64.ofNat h.length, truncated := truncated, text := h.drop start.toNat } := by
  have htotal := hb.toNat_total hlen
  have holdest := hb.toNat_oldest hlen
  have hcount : b.ring.count = min h.length kCapacity := hb.ring.count
  have hdef : oldestOf h = h.length - min h.length kCapacity := rfl
  have hcap : kCapacity = 16384 := rfl
  have hbytes : (b.total - start).toUInt32.toNat = h.length - start.toNat := by
    rw [toNat_diff (UInt64.le_iff_toNat_le.mpr (by omega)) (by omega), htotal]
  have hoffset : (start - (b.total - UInt64.ofNat b.ring.count)).toUInt32.toNat =
      start.toNat - oldestOf h := by
    rw [toNat_diff (UInt64.le_iff_toNat_le.mpr (by omega)) (by omega), holdest]
  rw [hbytes, hoffset, hb.total]
  split_ifs with hnone
  · rw [List.drop_of_length_le (by omega)]
  · rw [hb.ring.read (by omega), List.take_of_length_le (by rw [List.length_drop]; omega)]
    congr 2
    omega

/-- **A snapshot is a part of the history**, up to its end. -/
theorem snapshotSince_eq {b : LogBuffer} {h : List UInt8} (hb : Logged b h) (hlen : h.length < 2 ^ 64)
    (since : UInt64) : b.snapshotSince since =
      { next := UInt64.ofNat h.length
        truncated := 0 < since.toNat ∧ since.toNat < oldestOf h
        text := h.drop (max (min since.toNat h.length) (oldestOf h)) } := by
  have htotal := hb.toNat_total hlen
  have holdest := hb.toNat_oldest hlen
  have hcount : b.ring.count = min h.length kCapacity := hb.ring.count
  have hdef : oldestOf h = h.length - min h.length kCapacity := rfl
  have hcap : kCapacity = 16384 := rfl
  have hzero : since = 0 ↔ since.toNat = 0 := by
    rw [← UInt64.toNat_inj]
    rfl
  have hequal : since = b.total ↔ since.toNat = h.length := by
    rw [← UInt64.toNat_inj, htotal]
  unfold LogBuffer.snapshotSince
  by_cases hnone : b.ring.count = 0 ∨ since = b.total
  · rw [if_pos hnone]
    rw [hequal, hcount] at hnone
    rw [List.drop_of_length_le (by omega), decide_eq_false (by omega), hb.total]
  · rw [if_neg hnone]
    rw [hequal, hcount] at hnone
    dsimp only
    have hearly : (decide (since = 0) || decide (since < b.total - UInt64.ofNat b.ring.count)) =
        decide (since.toNat = 0 ∨ since.toNat < oldestOf h) := by
      rw [Bool.decide_or, decide_eq_decide.mpr hzero]
      congr 1
      rw [decide_eq_decide, UInt64.lt_iff_toNat_lt, holdest]
    rw [hearly]
    by_cases hbefore : since.toNat = 0 ∨ since.toNat < oldestOf h
    · rw [if_pos (decide_eq_true hbefore), decide_eq_true hbefore, Bool.true_and,
        read_from hb hlen holdest.ge (by omega), holdest]
      congr 1
      · rw [decide_eq_decide, ne_eq, hzero]
        omega
      · congr 1
        omega
    · have hfalse : ¬ false = true := Bool.false_ne_true
      rw [decide_eq_false hbefore, Bool.false_and, if_neg hfalse]
      have hstart : (if since > b.total then b.total else since).toNat = min since.toNat h.length := by
        split_ifs with hgt
        · have := UInt64.lt_iff_toNat_lt.mp hgt
          omega
        · have := mt UInt64.lt_iff_toNat_lt.mpr hgt
          omega
      have hold : oldestOf h ≤ (if since > b.total then b.total else since).toNat := by
        rw [hstart]
        omega
      rw [read_from hb hlen hold (by rw [hstart]; omega), hstart]
      congr 1
      · exact (decide_eq_false (by omega)).symm
      · congr 1
        omega

/-! ### A reader -/

/-- What a reader asked for, and what it got. -/
structure Read where
  since : UInt64
  snapshot : Snapshot

def Read.stop (r : Read) : ℕ := r.snapshot.next.toNat

def Read.start (r : Read) : ℕ := r.stop - r.snapshot.text.length

/-- The buffer, what was appended to it, and a reader: the cursor it passes next, and its reads. -/
structure Reader where
  log : LogBuffer
  history : List UInt8 := []
  cursor : UInt64
  reads : List Read := []

/-- Something is appended, or the reader reads. -/
inductive Event
  | append (data : List UInt8)
  | read

/-- A step; the reader goes on from the last cursor that is not zero. -/
def step (r : Reader) : Event → Option Reader
  | .append data => some { r with log := r.log.append data, history := r.history ++ data }
  | .read =>
    let snapshot := r.log.snapshotSince r.cursor
    some { r with
      cursor := if snapshot.next ≠ 0 then snapshot.next else r.cursor
      reads := r.reads ++ [⟨r.cursor, snapshot⟩] }

/-- A reader that starts at a cursor. -/
def fresh (cursor : UInt64) : Reader := { log := empty, cursor := cursor }

/-- A byte was delivered. -/
def Delivered (reads : List Read) (p : ℕ) : Prop := ∃ r ∈ reads, r.start ≤ p ∧ p < r.stop

/-- A byte was overwritten before it was read, and the snapshot says so or had no cursor to compare with. -/
def Missed (first : UInt64) (reads : List Read) (p : ℕ) : Prop :=
  ∃ r ∈ reads, (r.snapshot.truncated = true ∨ first = 0 ∧ r.since = 0) ∧ r.since.toNat ≤ p ∧ p < r.start

/-- A read is a part of the history. -/
structure Part (history : List UInt8) (r : Read) : Prop where
  start_le : r.start ≤ r.stop
  stop_le : r.stop ≤ history.length
  text : r.snapshot.text = (history.drop r.start).take (r.stop - r.start)

/-- What holds of a reader that has come to `pos`. -/
structure Sound (first : UInt64) (r : Reader) (pos : ℕ) : Prop where
  logged : Logged r.log r.history
  begun : pos = 0 → r.cursor = first
  cursor : pos ≠ 0 → r.cursor.toNat = pos
  pos_le : pos ≤ r.history.length
  parts : ∀ read ∈ r.reads, Part r.history read
  reads_le : ∀ read ∈ r.reads, read.stop ≤ pos
  ordered : r.reads.Pairwise fun a b => a.stop ≤ b.start
  covered : ∀ p, first.toNat ≤ p → p < pos → Delivered r.reads p ∨ Missed first r.reads p

theorem sound_fresh (first : UInt64) : Sound first (fresh first) 0 where
  logged := logged_empty
  begun := fun _ => rfl
  cursor := fun h => absurd rfl h
  pos_le := Nat.zero_le _
  parts := fun _ h => absurd h List.not_mem_nil
  reads_le := fun _ h => absurd h List.not_mem_nil
  ordered := .nil
  covered := fun p _ hp => absurd hp (Nat.not_lt_zero p)

theorem Part.append {history : List UInt8} {r : Read} (hr : Part history r) (data : List UInt8) :
    Part (history ++ data) r where
  start_le := hr.start_le
  stop_le := hr.stop_le.trans (by rw [List.length_append]; omega)
  text := by
    have h1 := hr.start_le
    have h2 := hr.stop_le
    rw [hr.text, List.drop_append_of_le_length (h1.trans h2),
      List.take_append_of_le_length (by rw [List.length_drop]; omega)]

theorem Sound.append {first : UInt64} {r : Reader} {pos : ℕ} (hr : Sound first r pos) (data : List UInt8) :
    Sound first { r with log := r.log.append data, history := r.history ++ data } pos where
  logged := hr.logged.append data
  begun := hr.begun
  cursor := hr.cursor
  pos_le := hr.pos_le.trans (by rw [List.length_append]; omega)
  parts := fun read hread => (hr.parts read hread).append data
  reads_le := hr.reads_le
  ordered := hr.ordered
  covered := hr.covered

/-- **A read goes on where the last one ended**, or behind what was overwritten. -/
theorem Sound.read {first : UInt64} {r : Reader} {pos : ℕ} (hr : Sound first r pos)
    (hlen : r.history.length < 2 ^ 64) :
    Sound first { r with
      cursor := if (r.log.snapshotSince r.cursor).next ≠ 0 then (r.log.snapshotSince r.cursor).next
        else r.cursor
      reads := r.reads ++ [⟨r.cursor, r.log.snapshotSince r.cursor⟩] } r.history.length := by
  set T := r.history.length with hT
  set s := r.cursor.toNat with hs
  set read : Read := ⟨r.cursor, r.log.snapshotSince r.cursor⟩ with hread
  have hsnap := snapshotSince_eq hr.logged hlen r.cursor
  have hdef : oldestOf r.history = T - min T kCapacity := rfl
  have hnext : (r.log.snapshotSince r.cursor).next = UInt64.ofNat T := by rw [hsnap]
  have hnextNat : (UInt64.ofNat T).toNat = T := UInt64.toNat_ofNat_of_lt' hlen
  have hstop : read.stop = T := by
    show (r.log.snapshotSince r.cursor).next.toNat = T
    rw [hnext, hnextNat]
  have htext : read.snapshot.text = r.history.drop (max (min s T) (oldestOf r.history)) := by
    show (r.log.snapshotSince r.cursor).text = _
    rw [hsnap]
  have hstart : read.start = max (min s T) (oldestOf r.history) := by
    unfold Read.start
    rw [hstop, htext, List.length_drop]
    omega
  have htruncated : read.snapshot.truncated = true ↔ 0 < s ∧ s < oldestOf r.history := by
    show (r.log.snapshotSince r.cursor).truncated = true ↔ _
    rw [hsnap]
    exact decide_eq_true_iff
  have hposs : pos ≤ s ∨ pos = 0 := by
    rcases Nat.eq_zero_or_pos pos with h0 | hpos
    · exact Or.inr h0
    · exact Or.inl (hr.cursor hpos.ne').ge
  refine ⟨hr.logged, fun h0 => ?_, fun h0 => ?_, le_refl _, fun x hx => ?_, fun x hx => ?_, ?_, ?_⟩
  · have hpos := hr.pos_le
    rw [hnext, h0]
    exact hr.begun (by omega)
  · have hne : UInt64.ofNat T ≠ 0 := fun heq => h0 (by rw [← hnextNat, heq]; rfl)
    rw [hnext, if_pos hne, hnextNat]
  · rcases List.mem_append.mp hx with hx | hx
    · exact hr.parts x hx
    · rw [List.mem_singleton.mp hx]
      refine ⟨by rw [hstart, hstop]; omega, hstop.le, ?_⟩
      rw [htext, hstart, hstop, List.take_of_length_le (by rw [List.length_drop])]
  · rcases List.mem_append.mp hx with hx | hx
    · exact (hr.reads_le x hx).trans hr.pos_le
    · rw [List.mem_singleton.mp hx]
      exact hstop.le
  · refine List.pairwise_append.mpr ⟨hr.ordered, List.pairwise_singleton _ _, fun a ha b hb => ?_⟩
    have hle := hr.reads_le a ha
    have hpos := hr.pos_le
    rw [List.mem_singleton.mp hb, hstart]
    omega
  · intro p hp hlt
    have hmem : read ∈ r.reads ++ [read] := List.mem_append_right _ (List.mem_singleton_self _)
    rcases Nat.lt_or_ge p pos with hbefore | hafter
    · rcases hr.covered p hp hbefore with ⟨x, hx, h⟩ | ⟨x, hx, h⟩
      · exact Or.inl ⟨x, List.mem_append_left _ hx, h⟩
      · exact Or.inr ⟨x, List.mem_append_left _ hx, h⟩
    · rcases Nat.lt_or_ge p read.start with hgap | hin
      · -- the byte was overwritten before this read
        have hsince : s ≤ p := by
          rcases Nat.eq_zero_or_pos pos with h0 | hpos
          · rw [hs, hr.begun h0]
            exact hp
          · rw [hs, hr.cursor hpos.ne']
            exact hafter
        refine Or.inr ⟨read, hmem, ?_, hsince, hgap⟩
        rw [hstart] at hgap
        rcases Nat.eq_zero_or_pos s with hs0 | hspos
        · right
          have hzero : r.cursor = 0 := UInt64.toNat_inj.mp hs0
          have hpos0 : pos = 0 := by omega
          exact ⟨(hr.begun hpos0).symm.trans hzero, hzero⟩
        · left
          exact htruncated.mpr ⟨hspos, by omega⟩
      · exact Or.inl ⟨read, hmem, hin, hstop ▸ hlt⟩

/-- What holds along a run, as long as the bytes can be counted. -/
theorem sound_run {first : UInt64} {events : List Event} {r : Reader}
    (hrun : run step (fresh first) events = some r) (hlen : r.history.length < 2 ^ 64) :
    ∃ pos, Sound first r pos := by
  refine run_invariant (I := fun r => r.history.length < 2 ^ 64 → ∃ pos, Sound first r pos) ?_
    (fun _ => ⟨0, sound_fresh first⟩) hrun hlen
  intro r e r' hr hstep hlen'
  cases e with
  | append data =>
    cases hstep
    rw [List.length_append] at hlen'
    obtain ⟨pos, hpos⟩ := hr (by omega)
    exact ⟨pos, hpos.append data⟩
  | read =>
    cases hstep
    obtain ⟨pos, hpos⟩ := hr hlen'
    exact ⟨_, hpos.read hlen'⟩

/-- **The console log is faithful.** After any appends and reads, as long as the bytes can be counted: a
snapshot is the part of the history behind its cursor that is still held, and it says whether some was
overwritten; the reads of a reader are parts of the history in order, none of them twice; and each byte from
its first cursor on that comes before the end of a read was delivered or counted as missed. -/
theorem log_faithful {first : UInt64} {events : List Event} {r : Reader}
    (hrun : run step (fresh first) events = some r) (hlen : r.history.length < 2 ^ 64) :
    (∀ since : UInt64, since.toNat ≤ r.history.length →
      (r.log.snapshotSince since).next.toNat = r.history.length ∧
      (r.log.snapshotSince since).text = r.history.drop (max since.toNat (oldestOf r.history)) ∧
      ((r.log.snapshotSince since).truncated = true ↔ 0 < since.toNat ∧ since.toNat < oldestOf r.history)) ∧
    (∀ read ∈ r.reads, Part r.history read) ∧ (r.reads.Pairwise fun a b => a.stop ≤ b.start) ∧
    ∀ p, first.toNat ≤ p → (∃ read ∈ r.reads, p < read.stop) →
      Delivered r.reads p ∨ Missed first r.reads p := by
  obtain ⟨pos, hpos⟩ := sound_run hrun hlen
  refine ⟨fun since hsince => ?_, hpos.parts, hpos.ordered, ?_⟩
  · rw [snapshotSince_eq hpos.logged hlen since, min_eq_left hsince]
    exact ⟨UInt64.toNat_ofNat_of_lt' hlen, rfl, decide_eq_true_iff⟩
  · rintro p hp ⟨read, hread, hlt⟩
    exact hpos.covered p hp (hlt.trans_le (hpos.reads_le read hread))

/-- More is appended between two reads than the ring holds. -/
def overflowing : List Event := [.append [72, 105], .read, .append (List.replicate 20000 33), .read]

theorem log_faithful_overflowing : ∃ r, run step (fresh 0) overflowing = some r ∧
    (r.log.snapshotSince 2).text = List.replicate kCapacity 33 ∧
      (r.log.snapshotSince 2).truncated = true ∧ r.reads.Pairwise fun a b => a.stop ≤ b.start := by
  obtain ⟨r, hrun, hhistory⟩ : ∃ r, run step (fresh 0) overflowing = some r ∧
      r.history = [72, 105] ++ List.replicate 20000 33 := ⟨_, rfl, rfl⟩
  have hlength : r.history.length = 20002 := by
    rw [hhistory, List.length_append, List.length_replicate]
    rfl
  have holdest : oldestOf r.history = 3618 := by
    unfold oldestOf kCapacity
    rw [hlength]
    rfl
  obtain ⟨hsnapshots, -, hordered, -⟩ := log_faithful hrun (by rw [hlength]; decide)
  obtain ⟨-, htext, htruncated⟩ := hsnapshots 2 (by rw [hlength]; decide)
  refine ⟨r, hrun, ?_, htruncated.mpr ?_, hordered⟩
  · rw [htext, holdest, hhistory]
    have hmax : max (2 : UInt64).toNat 3618 = [(72 : UInt8), 105].length + 3616 := rfl
    rw [hmax, List.drop_length_add_append, List.drop_replicate]
    rfl
  · rw [holdest]
    decide

/-! ### What is missed -/

theorem snapshotSince_next (b : LogBuffer) (since : UInt64) : (b.snapshotSince since).next = b.total := by
  unfold LogBuffer.snapshotSince
  by_cases hnone : b.ring.count = 0 ∨ since = b.total
  · rw [if_pos hnone]
  · rw [if_neg hnone]
    dsimp only
    rw [apply_ite Snapshot.next]
    exact ite_self _

theorem next_overflow {h : List UInt8} (hh : h.length = 2 ^ 64) (since : UInt64) :
    ((empty.append h).snapshotSince since).next = 0 := by
  rw [snapshotSince_next, (logged_empty.append h).total, List.nil_append, hh]
  rfl

/-- A reader that starts at 0, when one byte more was appended than the buffer holds. -/
theorem missed_first {h : List UInt8} (hh : h.length = kCapacity + 1) :
    ∃ r, run step (fresh 0) [.append h, .read] = some r ∧ r.reads.length = 1 ∧
      ∀ read ∈ r.reads, read.since = 0 ∧ read.snapshot.truncated = false ∧ read.start = 1 := by
  have hcap : kCapacity = 16384 := rfl
  have hold : oldestOf h = 1 := by
    unfold oldestOf
    omega
  have hsnap := snapshotSince_eq (logged_empty.append h) (by rw [List.nil_append]; omega) 0
  rw [List.nil_append, UInt64.toNat_zero, hold, decide_eq_false (by omega), Nat.zero_min,
    max_eq_right (Nat.zero_le 1)] at hsnap
  refine ⟨_, rfl, rfl, fun read hread => ?_⟩
  rw [List.mem_singleton.mp hread]
  unfold Read.start Read.stop
  dsimp only [fresh]
  rw [hsnap]
  refine ⟨rfl, rfl, ?_⟩
  dsimp only
  rw [UInt64.toNat_ofNat_of_lt' (by rw [hh]; decide), List.length_drop, hh]
  omega

/-- **A reader that starts at 0 misses what was overwritten**, and is not told; and a count of `2 ^ 64`
bytes is zero. -/
theorem log_missed :
    (∃ r, run step (fresh 0) [.append (0 :: List.replicate kCapacity 1), .read] = some r ∧
      r.reads.length = 1 ∧
      ∀ read ∈ r.reads, read.since = 0 ∧ read.snapshot.truncated = false ∧ read.start = 1) ∧
    ((empty.append (List.replicate (2 ^ 64) 0)).snapshotSince 0).next = 0 :=
  ⟨missed_first (by rw [List.length_cons, List.length_replicate]), next_overflow List.length_replicate 0⟩

end GpsBase.Console.Log
