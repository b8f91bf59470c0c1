import GpsBase.Survey.Satellites

/-! # Satellites by cycles

The receiver sends the satellites of a system in a cycle of sentences, cycle after cycle, and some of
the sentences may be lost. The list keeps its limits whatever is lost, and a cycle that arrives whole
replaces the entries of its system (`entries_whole`).

The buffer is emptied by the first sentence of a cycle or by a change of the system, not by its last
sentence. A cycle whose first sentence is lost, right behind a sentence of an earlier cycle of the same
system, is therefore added to the satellites of that cycle. Where this does not happen (`Follows`), the
entries of a system are satellites of one cycle (`listed_of_received`). -/

namespace GpsBase.Survey.Cycles

open scoped List
open GpsBase.Lib.CText GpsBase.Lib.Lines GpsBase.Survey.LineFeed GpsBase.Survey.Satellites
open GpsBase.Survey.Satellites.SurveyManager

/-! ### Cycles -/

/-- The sentences of a system, one cycle of them. -/
structure Cycle where
  system : ℕ
  lines : List (List UInt8)
  deriving DecidableEq, Repr

namespace Cycle

/-- What the first `n` sentences of a cycle report. -/
def reportedBy (c : Cycle) (n : ℕ) : List Report := (c.lines.take n).flatMap reported

/-- The satellites of the first `n` sentences. -/
def satellitesBy (c : Cycle) (n : ℕ) : List SatelliteInfo := (c.reportedBy n).map (entry c.system)

def satellites (c : Cycle) : List SatelliteInfo := c.satellitesBy c.lines.length

/-- The numbers of the satellites of a cycle. -/
def numbers (c : Cycle) : List ℤ := (c.reportedBy c.lines.length).map fun r => parseInt r.prn

/-- A complete cycle: its sentences are numbered through, and no satellite is reported twice. -/
structure Complete (c : Cycle) : Prop where
  nonempty : c.lines ≠ []
  message : ∀ i line, c.lines[i]? = some line → IsMessage line c.system c.lines.length (i + 1)
  once : c.numbers.Nodup

/-- The list tells the satellites of a cycle apart: it holds their numbers clamped. -/
def Apart (c : Cycle) : Prop := (c.numbers.map (clamp · 999)).Nodup

theorem complete_iff (c : Cycle) : c.Complete ↔ c.lines ≠ [] ∧
    (∀ i < c.lines.length, IsMessage (c.lines.getD i []) c.system c.lines.length (i + 1)) ∧
      c.numbers.Nodup := by
  constructor
  · rintro ⟨hne, hmessage, honce⟩
    exact ⟨hne, fun i hi => hmessage i _ (by simp [List.getElem?_eq_getElem hi]), honce⟩
  · rintro ⟨hne, hmessage, honce⟩
    refine ⟨hne, fun i line hline => ?_, honce⟩
    obtain ⟨hi, rfl⟩ := List.getElem?_eq_some_iff.mp hline
    have h := hmessage i hi
    rwa [List.getD_eq_getElem?_getD, List.getElem?_eq_getElem hi, Option.getD_some] at h

instance (c : Cycle) : Decidable c.Complete := decidable_of_iff' _ (complete_iff c)

instance (c : Cycle) : Decidable c.Apart := by
  unfold Apart; infer_instance

theorem Complete.apart {c : Cycle} (hc : c.Complete) (hshort : ∀ n ∈ c.numbers, 0 ≤ n ∧ n ≤ 999) :
    c.Apart := by
  refine List.Nodup.map_on (fun m hm n hn heq => ?_) hc.once
  have hm := hshort m hm
  have hn := hshort n hn
  unfold clamp at heq
  omega

theorem satellitesBy_succ (c : Cycle) {n : ℕ} {line : List UInt8} (h : c.lines[n]? = some line) :
    c.satellitesBy (n + 1) = c.satellitesBy n ++ (reported line).map (entry c.system) := by
  unfold satellitesBy reportedBy
  rw [List.take_add_one, h, Option.toList_some, List.flatMap_append, List.map_append, List.flatMap_singleton]

theorem satellitesBy_sublist (c : Cycle) {m n : ℕ} (h : m ≤ n) : c.satellitesBy m <+ c.satellitesBy n := by
  unfold satellitesBy reportedBy
  refine List.Sublist.map _ ?_
  have htake : c.lines.take m <+ c.lines.take n := (List.take_prefix_take_left h).sublist
  exact htake.flatMap reported

theorem satellitesBy_system (c : Cycle) (n : ℕ) : ∀ e ∈ c.satellitesBy n, e.system = c.system := by
  intro e he
  obtain ⟨r, -, rfl⟩ := List.mem_map.mp he
  rfl

theorem Apart.nodup_prn {c : Cycle} (h : c.Apart) : (c.satellites.map (·.prn)).Nodup := by
  unfold Apart numbers at h
  unfold satellites satellitesBy
  rw [List.map_map] at h ⊢
  exact h

end Cycle

/-! ### A cycle received whole -/

theorem take_take_append {α : Type*} (n : ℕ) (x y : List α) : (x.take n ++ y).take n = (x ++ y).take n := by
  have hroom : n - min n x.length = n - x.length := by omega
  rw [List.take_append, List.take_append, List.take_take, List.length_take, min_self, hroom]

/-- **The sentences of a cycle, one after the other**: the buffer holds their satellites, and the last of
them replaces the entries. -/
theorem foldl_take {c : Cycle} (hc : c.Complete) {s : SurveyManager} (hs : Bounded s) :
    ∀ i, i < c.lines.length → (c.lines.take (i + 1)).foldl parseLine s =
      let t : SurveyManager :=
        { s with gsvBuffer := (c.satellitesBy (i + 1)).take kMaxGsvSatellites, gsvSystem := c.system }
      if i + 1 = c.lines.length then t.merge c.system else t
  | 0, hi => by
    have hline : c.lines[0]? = some c.lines[0] := List.getElem?_eq_getElem hi
    have hfirst : c.satellitesBy 0 = [] := by simp [Cycle.satellitesBy, Cycle.reportedBy]
    rw [List.take_add_one, hline, List.take_zero, Option.toList_some, List.nil_append, List.foldl_cons,
      List.foldl_nil, parseLine_message (hc.message 0 _ hline) hi Nat.one_pos hs.room, receive_eq]
    unfold fill
    rw [if_pos (Or.inl rfl), c.satellitesBy_succ hline, hfirst]
  | i + 1, hi => by
    have hline : c.lines[i + 1]? = some c.lines[i + 1] := List.getElem?_eq_getElem hi
    have ih := foldl_take hc hs i (by omega)
    dsimp only at ih
    rw [if_neg (by omega)] at ih
    rw [List.take_add_one, hline, Option.toList_some, List.foldl_append, ih, List.foldl_cons, List.foldl_nil,
      parseLine_message (hc.message _ _ hline) (by omega) (Nat.succ_pos _) (List.length_take_le _ _),
      receive_eq]
    unfold fill
    have hsame : ¬ (i + 1 + 1 = 1 ∨ c.system ≠ c.system) := by simp
    rw [if_neg hsame, c.satellitesBy_succ hline, take_take_append]

/-- **A cycle received whole** puts its satellites into the list, as far as they fit, and leaves the
entries of the other systems. -/
theorem entries_whole {c : Cycle} (hc : c.Complete) {s : SurveyManager} (hs : Bounded s) :
    let t := c.lines.foldl parseLine s
    t.others c.system = s.others c.system ∧ t.entries c.system =
      c.satellites.take (min kMaxGsvSatellites (kMaxSatellites - (s.others c.system).length)) := by
  have hpos := List.length_pos_iff.mpr hc.nonempty
  have hlast : c.lines.length - 1 + 1 = c.lines.length := by omega
  have hrun := foldl_take hc hs (c.lines.length - 1) (by omega)
  rw [hlast, List.take_length, if_pos rfl] at hrun
  rw [hrun]
  have hsystem : ∀ e ∈ (c.satellitesBy c.lines.length).take kMaxGsvSatellites, e.system = c.system :=
    fun e he => c.satellitesBy_system _ e (List.mem_of_mem_take he)
  refine ⟨others_merge hsystem, (entries_merge hsystem).trans ?_⟩
  rw [List.take_take, min_comm]
  rfl

/-! ### The sentences received -/

def cycleAt (cycles : List Cycle) (t : ℕ) : Cycle := cycles.getD t ⟨0, []⟩

/-- Where the sentences of a cycle are: the cycle, and the place in it. -/
def placesOf (cycles : List Cycle) (t : ℕ) : List (ℕ × ℕ) :=
  (List.range (cycleAt cycles t).lines.length).map fun i => (t, i)

/-- Where all sentences are, in the order in which they are sent. -/
def places (cycles : List Cycle) : List (ℕ × ℕ) := (List.range cycles.length).flatMap (placesOf cycles)

def lineAt (cycles : List Cycle) (x : ℕ × ℕ) : List UInt8 := (cycleAt cycles x.1).lines.getD x.2 []

/-- The satellites of the sentence at a place. -/
def satellitesAt (cycles : List Cycle) (x : ℕ × ℕ) : List SatelliteInfo :=
  (reported (lineAt cycles x)).map (entry (cycleAt cycles x.1).system)

/-- What the survey manager makes of the sentences it receives. -/
def run (cycles : List Cycle) (received : List (ℕ × ℕ)) : SurveyManager :=
  (received.map (lineAt cycles)).foldl parseLine start

/-- A sentence that is not the first of its cycle comes after a sentence of its cycle, or of another
system. -/
def Follows (cycles : List Cycle) (x y : ℕ × ℕ) : Prop :=
  y.2 = 0 ∨ y.1 = x.1 ∨ (cycleAt cycles y.1).system ≠ (cycleAt cycles x.1).system

instance (cycles : List Cycle) (x y : ℕ × ℕ) : Decidable (Follows cycles x y) := by
  unfold Follows; infer_instance

theorem run_append (cycles : List Cycle) (p : List (ℕ × ℕ)) (x : ℕ × ℕ) :
    run cycles (p ++ [x]) = (run cycles p).parseLine (lineAt cycles x) := by
  unfold run
  rw [List.map_append, List.foldl_append]
  rfl

theorem satellitesAt_system (cycles : List Cycle) (x : ℕ × ℕ) :
    ∀ e ∈ satellitesAt cycles x, e.system = (cycleAt cycles x.1).system := by
  intro e he
  obtain ⟨_, -, rfl⟩ := List.mem_map.mp he
  rfl

theorem mem_places {cycles : List Cycle} {x : ℕ × ℕ} (h : x ∈ places cycles) :
    cycleAt cycles x.1 ∈ cycles ∧ (cycleAt cycles x.1).lines[x.2]? = some (lineAt cycles x) := by
  obtain ⟨t, ht, hx⟩ := List.mem_flatMap.mp h
  obtain ⟨i, hi, rfl⟩ := List.mem_map.mp hx
  rw [List.mem_range] at ht hi
  refine ⟨?_, ?_⟩
  · unfold cycleAt
    rw [List.getD_eq_getElem?_getD, List.getElem?_eq_getElem ht, Option.getD_some]
    exact List.getElem_mem ht
  · show (cycleAt cycles t).lines[i]? = some ((cycleAt cycles t).lines.getD i [])
    rw [List.getD_eq_getElem?_getD, List.getElem?_eq_getElem hi, Option.getD_some]

theorem places_pairwise (cycles : List Cycle) :
    (places cycles).Pairwise fun x y => x.1 < y.1 ∨ x.1 = y.1 ∧ x.2 < y.2 := by
  unfold places
  rw [List.pairwise_flatMap]
  refine ⟨fun t _ => ?_, ?_⟩
  · unfold placesOf
    rw [List.pairwise_map]
    exact List.pairwise_lt_range.imp fun h => Or.inr ⟨rfl, h⟩
  · refine List.pairwise_lt_range.imp fun {t t'} hlt x hx y hy => Or.inl ?_
    obtain ⟨i, -, rfl⟩ := List.mem_map.mp hx
    obtain ⟨j, -, rfl⟩ := List.mem_map.mp hy
    exact hlt

/-! ### The list of what is received -/

/-- The entries of each system are satellites of one cycle. -/
def OneCycle (cycles : List Cycle) (s : SurveyManager) : Prop := ∀ system, s.entries system = [] ∨
  ∃ c ∈ cycles, c.system = system ∧ s.entries system <+ c.satellites

/-- The list of a run: the entries of a system are satellites of one cycle, no satellite is there twice,
and the limits are kept. -/
structure Listed (cycles : List Cycle) (s : SurveyManager) : Prop where
  oneCycle : OneCycle cycles s
  once : (s.satelliteList.map fun e => (e.system, e.prn)).Nodup
  perSystem : ∀ system, (s.entries system).length ≤ kMaxGsvSatellites
  total : s.satelliteList.length ≤ kMaxSatellites

/-- **The invariant of the buffer**: it holds satellites of the cycle of the last sentence, in order. -/
structure Assembled (cycles : List Cycle) (x : ℕ × ℕ) (s : SurveyManager) : Prop where
  system : s.gsvSystem = (cycleAt cycles x.1).system
  buffer : s.gsvBuffer <+ (cycleAt cycles x.1).satellitesBy (x.2 + 1)

section

variable {cycles : List Cycle} (hcycles : ∀ c ∈ cycles, c.Complete)
include hcycles

theorem parseLine_place {x : ℕ × ℕ} (hx : x ∈ places cycles) {s : SurveyManager} (hs : Bounded s) :
    s.parseLine (lineAt cycles x) =
      s.receive (cycleAt cycles x.1).system (cycleAt cycles x.1).lines.length (x.2 + 1)
        (satellitesAt cycles x) := by
  obtain ⟨hmem, hline⟩ := mem_places hx
  have hlt : x.2 < (cycleAt cycles x.1).lines.length := (List.getElem?_eq_some_iff.mp hline).1
  exact parseLine_message ((hcycles _ hmem).message _ _ hline) (by omega) (Nat.succ_pos _) hs.room

/-- **The limits are kept whatever is received.** -/
theorem bounded_run {r : List (ℕ × ℕ)} (hr : ∀ x ∈ r, x ∈ places cycles) : Bounded (run cycles r) := by
  induction r using List.reverseRecOn with
  | nil => exact bounded_start
  | append_singleton p x ih =>
    have hs := ih fun y hy => hr y (List.mem_append_left _ hy)
    rw [run_append, parseLine_place hcycles (hr x (by simp)) hs]
    exact hs.receive _ _ (satellitesAt_system cycles x)

omit hcycles in
/-- A sentence is added to an empty buffer, or to satellites of its cycle. -/
theorem assembled_fill {y : ℕ × ℕ} (hy : y ∈ places cycles) {s : SurveyManager}
    (h : y.2 + 1 = 1 ∨ (cycleAt cycles y.1).system ≠ s.gsvSystem ∨
      s.gsvBuffer <+ (cycleAt cycles y.1).satellitesBy y.2) :
    Assembled cycles y (s.fill (cycleAt cycles y.1).system (y.2 + 1) (satellitesAt cycles y)) where
  system := rfl
  buffer := by
    obtain ⟨-, hline⟩ := mem_places hy
    unfold fill
    refine (List.take_sublist _ _).trans ?_
    rw [Cycle.satellitesBy_succ _ hline]
    refine List.Sublist.append ?_ (List.Sublist.refl _)
    split_ifs with hnew
    · exact List.nil_sublist _
    · rcases h with hfirst | hother | hkept
      · exact absurd (Or.inl hfirst) hnew
      · exact absurd (Or.inr hother) hnew
      · exact hkept

omit hcycles in
/-- **A sentence that follows** finds the buffer empty, of another system, or of its cycle. -/
theorem Assembled.kept {x y : ℕ × ℕ} {s : SurveyManager} (hs : Assembled cycles x s)
    (hlt : x.1 < y.1 ∨ x.1 = y.1 ∧ x.2 < y.2) (hfollows : Follows cycles x y) :
    y.2 + 1 = 1 ∨ (cycleAt cycles y.1).system ≠ s.gsvSystem ∨
      s.gsvBuffer <+ (cycleAt cycles y.1).satellitesBy y.2 := by
  rcases hfollows with hfirst | hsame | hother
  · exact Or.inl (by omega)
  · have hplace : x.2 + 1 ≤ y.2 := by omega
    rw [hsame]
    exact Or.inr (Or.inr (hs.buffer.trans (Cycle.satellitesBy_sublist _ hplace)))
  · rw [hs.system]
    exact Or.inr (Or.inl hother)

omit hcycles in
theorem OneCycle.merge {y : ℕ × ℕ} (hy : y ∈ places cycles) {s : SurveyManager} (hs : OneCycle cycles s)
    (hsystem : ∀ e ∈ s.gsvBuffer, e.system = s.gsvSystem) (hbuffer : Assembled cycles y s) :
    OneCycle cycles (s.merge (cycleAt cycles y.1).system) := by
  obtain ⟨hmem, hline⟩ := mem_places hy
  have hlt : y.2 < (cycleAt cycles y.1).lines.length := (List.getElem?_eq_some_iff.mp hline).1
  rw [hbuffer.system] at hsystem
  intro system
  rcases eq_or_ne system (cycleAt cycles y.1).system with rfl | hne
  · rw [entries_merge hsystem]
    exact Or.inr ⟨_, hmem, rfl, ((List.take_sublist _ _).trans hbuffer.buffer).trans
      (Cycle.satellitesBy_sublist _ hlt)⟩
  · rw [entries_merge_of_ne hne hsystem]
    exact hs system

/-- **The run**: in it, every sentence finds the buffer as its cycle left it. -/
theorem oneCycle_run {r : List (ℕ × ℕ)} (hr : r <+ places cycles) (hchain : r.IsChain (Follows cycles)) :
    OneCycle cycles (run cycles r) ∧ ∀ x ∈ r.getLast?, Assembled cycles x (run cycles r) := by
  induction r using List.reverseRecOn with
  | nil => exact ⟨fun _ => Or.inl rfl, fun _ hx => by cases hx⟩
  | append_singleton p y ih =>
    have hp := (List.sublist_append_left p [y]).trans hr
    obtain ⟨hpchain, -, hlast⟩ := List.isChain_append.mp hchain
    obtain ⟨ihlist, ihbuffer⟩ := ih hp hpchain
    have hy : y ∈ places cycles := hr.subset (by simp)
    have hs := bounded_run hcycles fun x hx => hp.subset hx
    have horder := (List.pairwise_append.mp ((places_pairwise cycles).sublist hr)).2.2
    have hfill := assembled_fill hy (s := run cycles p) (by
      rcases hx : p.getLast? with _ | x
      · rw [List.getLast?_eq_none_iff.mp hx]
        exact Or.inr (Or.inr (List.nil_sublist _))
      · exact (ihbuffer x hx).kept (horder x (List.mem_of_getLast? hx) y (by simp))
          (hlast x hx y (by simp)))
    have hbounded : Bounded ((run cycles p).fill (cycleAt cycles y.1).system (y.2 + 1)
      (satellitesAt cycles y)) := hs.fill _ (satellitesAt_system cycles y)
    have hone : OneCycle cycles ((run cycles p).fill (cycleAt cycles y.1).system (y.2 + 1)
      (satellitesAt cycles y)) := ihlist
    rw [run_append, parseLine_place hcycles hy hs, receive_eq, List.getLast?_append]
    split_ifs with hend
    · exact ⟨hone.merge hy hbounded.system hfill, fun x hx => by
        cases hx
        exact ⟨hfill.system, hfill.buffer⟩⟩
    · exact ⟨hone, fun x hx => by
        cases hx
        exact hfill⟩

omit hcycles in
/-- No pair is there twice if none of its halves is twice beside the same other half. -/
theorem nodup_map_pair {α : Type*} (f g : α → ℕ) : ∀ l : List α,
    (∀ k, ((l.filter fun e => f e = k).map g).Nodup) → (l.map fun e => (f e, g e)).Nodup
  | [], _ => List.nodup_nil
  | a :: l, h => by
    have hrest : ∀ k, ((l.filter fun e => f e = k).map g).Nodup := fun k =>
      (h k).sublist (((List.sublist_cons_self a l).filter _).map g)
    have hhead := h (f a)
    rw [List.filter_cons_of_pos (by simp), List.map_cons, List.nodup_cons] at hhead
    rw [List.map_cons, List.nodup_cons]
    refine ⟨fun hmem => ?_, nodup_map_pair f g l hrest⟩
    obtain ⟨b, hb, heq⟩ := List.mem_map.mp hmem
    obtain ⟨hf, hg⟩ := Prod.mk.inj heq
    exact hhead.1 (List.mem_map.mpr ⟨b, List.mem_filter.mpr ⟨hb, by simp [hf]⟩, hg⟩)

theorem listed_run (hapart : ∀ c ∈ cycles, c.Apart) {r : List (ℕ × ℕ)} (hr : r <+ places cycles)
    (hchain : r.IsChain (Follows cycles)) : Listed cycles (run cycles r) where
  oneCycle := (oneCycle_run hcycles hr hchain).1
  once := by
    refine nodup_map_pair _ _ _ fun system => ?_
    rcases (oneCycle_run hcycles hr hchain).1 system with hnil | ⟨c, hc, -, hsub⟩
    · unfold entries at hnil
      rw [hnil]
      exact List.nodup_nil
    · exact (hapart c hc).nodup_prn.sublist (hsub.map _)
  perSystem := (bounded_run hcycles fun _ hx => hr.subset hx).perSystem
  total := (bounded_run hcycles fun _ hx => hr.subset hx).total

omit hcycles in
theorem map_lineAt (t : ℕ) : (placesOf cycles t).map (lineAt cycles) = (cycleAt cycles t).lines := by
  unfold placesOf
  rw [List.map_map]
  refine List.ext_getElem (by simp) fun i hi hi' => ?_
  simp [lineAt, List.getElem?_eq_getElem hi']

/-- **The satellite list of what is received.** If no sentence comes right behind one of an earlier cycle
of its system, except for a first one, then after every sentence the entries of a system are satellites
of one cycle, each there once, within the limits; and a cycle received whole replaces the entries of its
system and no others. -/
theorem listed_of_received (hapart : ∀ c ∈ cycles, c.Apart) {r : List (ℕ × ℕ)} (hr : r <+ places cycles)
    (hchain : r.IsChain (Follows cycles)) :
    (∀ p, p <+: r → Listed cycles (run cycles p)) ∧
      ∀ p t, t < cycles.length → p ++ placesOf cycles t <+: r →
        let c := cycleAt cycles t
        let before := run cycles p
        let after := run cycles (p ++ placesOf cycles t)
        after.others c.system = before.others c.system ∧ after.entries c.system =
          c.satellites.take (min kMaxGsvSatellites (kMaxSatellites - (before.others c.system).length)) := by
  constructor
  · intro p hp
    refine listed_run hcycles hapart (hp.sublist.trans hr) ?_
    obtain ⟨rest, rfl⟩ := hp
    exact (List.isChain_append.mp hchain).1
  · intro p t ht hp
    have hmem : cycleAt cycles t ∈ cycles := by
      unfold cycleAt
      rw [List.getD_eq_getElem?_getD, List.getElem?_eq_getElem ht, Option.getD_some]
      exact List.getElem_mem ht
    have hs := bounded_run (r := p) hcycles fun x hx =>
      hr.subset (hp.subset (List.mem_append_left _ hx))
    have hwhole := entries_whole (hcycles _ hmem) hs
    have hrun : run cycles (p ++ placesOf cycles t) =
        (cycleAt cycles t).lines.foldl parseLine (run cycles p) := by
      unfold run
      rw [List.map_append, List.foldl_append, map_lineAt]
    dsimp only
    rw [hrun]
    exact hwhole

end

/-- **From the bytes**: what `feed` makes of the sentences received, in any chunks, if each of them fits
into a line. -/
theorem run_stream {cycles : List Cycle} {r : List (ℕ × ℕ)}
    (hr : ∀ x ∈ r, Inline (lineAt cycles x) ∧ (lineAt cycles x).length ≤ kMaxLine)
    {chunks : List (List UInt8)} (hchunks : chunks.flatten = r.flatMap fun x => lineAt cycles x ++ [cr, lf])
    (line : List UInt8) :
    (feedAll parseLine (LineFeed.start ⟨line, start⟩) chunks).rest = run cycles r := by
  have hlines : endedLines chunks.flatten = r.map (lineAt cycles) := by
    rw [hchunks]
    clear hchunks
    induction r with
    | nil => rfl
    | cons x r ih =>
      rw [List.flatMap_cons, endedLines_line (hr x List.mem_cons_self).1,
        ih fun y hy => hr y (List.mem_cons_of_mem _ hy), List.map_cons]
  have hheld : (r.map (lineAt cycles)).map held = r.map (lineAt cycles) := by
    rw [List.map_map]
    exact List.map_congr_left fun x hx => held_of_le (hr x hx).2
  rw [rest_feedAll, hlines, hheld]
  rfl

def gps : List Cycle :=
  [⟨1, [ascii "$GPGSV,2,1,03,01,10,020,30,02,15,100,40*7A", ascii "$GPGSV,2,2,03,03,20,030,35*7A"]⟩,
    ⟨1, [ascii "$GPGSV,2,1,03,01,11,021,31,02,16,101,41*7A", ascii "$GPGSV,2,2,03,03,21,031,36*7A"]⟩]

/-- The same with a cycle of GLONASS between them. -/
def gpsAndGlonass : List Cycle :=
  [gps.getD 0 ⟨0, []⟩, ⟨2, [ascii "$GLGSV,1,1,01,65,40,100,42*6B"]⟩, gps.getD 1 ⟨0, []⟩]

/-- With the first sentence of the second cycle lost behind that of GLONASS. -/
theorem listed_gpsAndGlonass :
    Listed gpsAndGlonass (run gpsAndGlonass [(0, 0), (0, 1), (1, 0), (2, 1)]) :=
  (listed_of_received (by decide +kernel) (by decide +kernel)
    (r := [(0, 0), (0, 1), (1, 0), (2, 1)]) (by decide +kernel) (by decide +kernel)).1 _ (List.prefix_refl _)

/-- **The first sentence of the second cycle is lost**, and a satellite is there twice, once from each
cycle. -/
theorem gps_twice : (∀ c ∈ gps, c.Complete ∧ c.Apart) ∧ [(0, 0), (0, 1), (1, 1)] <+ places gps ∧
    ((run gps [(0, 0), (0, 1), (1, 1)]).entries 1).map (fun e => (e.prn, e.elevation)) =
      [(1, 10), (2, 15), (3, 20), (3, 21)] ∧
    ¬ Listed gps (run gps [(0, 0), (0, 1), (1, 1)]) := by
  refine ⟨by decide +kernel, by decide +kernel, by decide +kernel, fun h => ?_⟩
  exact absurd h.once (by decide +kernel)

end GpsBase.Survey.Cycles
