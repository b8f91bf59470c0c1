import GpsBase.Web.Export
import Mathlib.Data.List.GetD
import Mathlib.Data.List.TakeWhile

/-! # The export, byte by byte

A file is its header, the lines up to the first `END OF HEADER`, and the rest. The two scanners read
with buffers of different sizes; where the first one accepts the header, every line of it fits both,
and so they agree where it ends. What is sent is the first header with its `TIME OF LAST OBS` replaced,
and the rest of every file. -/

namespace GpsBase.Web.ExportExact

open GpsBase.Lib.CText GpsBase.Lib.Lines GpsBase.Lib.Reads GpsBase.Web.Export

/-! ### The parts of a file -/

def endsHeader (line : List UInt8) : Bool := rinexLabelEquals line "END OF HEADER"

/-- The lines of the header, the one that ends it included. -/
def headerLines (s : List UInt8) : List (List UInt8) :=
  ((splitLines s).takeWhile fun l => !endsHeader l) ++
    ((splitLines s).dropWhile fun l => !endsHeader l).take 1

def afterHeader (s : List UInt8) : List UInt8 :=
  (((splitLines s).dropWhile fun l => !endsHeader l).drop 1).flatten

/-- The 60 columns of the last line of a header that is labelled `TIME OF LAST OBS`. -/
def lastObsOf (lines : List (List UInt8)) : Option (List UInt8) :=
  (lines.filter fun l => rinexLabelEquals l "TIME OF LAST OBS").getLast?.map (·.take 60)

def lineEnd (line : List UInt8) : List UInt8 := if [cr, lf] <:+ line then [cr, lf] else [lf]

/-- A line of the first header as it is sent. -/
def patched (value : Option (List UInt8)) (line : List UInt8) : List UInt8 :=
  match value with
  | none => line
  | some v =>
    if rinexLabelEquals line "TIME OF LAST OBS" then v ++ ascii "TIME OF LAST OBS    " ++ lineEnd line
    else line

/-- A file that is lines before the end of its header, the line that ends it, and a rest. -/
structure Split (s : List UInt8) (before : List (List UInt8)) (e rest : List UInt8) : Prop where
  bytes : s = before.flatten ++ (e ++ rest)
  lines : splitLines s = before ++ e :: splitLines rest
  notEnd : ∀ l ∈ before, endsHeader l = false
  ends : endsHeader e = true

theorem Split.dropWhile {s : List UInt8} {before : List (List UInt8)} {e rest : List UInt8}
    (h : Split s before e rest) :
    (splitLines s).takeWhile (fun l => !endsHeader l) = before ∧
      (splitLines s).dropWhile (fun l => !endsHeader l) = e :: splitLines rest := by
  have hbefore : ∀ l ∈ before, (!endsHeader l) = true := fun l hl => by rw [h.notEnd l hl]; rfl
  rw [h.lines, List.takeWhile_append_of_pos hbefore, List.dropWhile_append_of_pos hbefore,
    List.takeWhile_cons, List.dropWhile_cons, h.ends]
  simp

theorem Split.headerLines {s : List UInt8} {before : List (List UInt8)} {e rest : List UInt8}
    (h : Split s before e rest) : headerLines s = before ++ [e] := by
  unfold ExportExact.headerLines
  rw [h.dropWhile.1, h.dropWhile.2]
  rfl

theorem Split.noNul {s : List UInt8} {before : List (List UInt8)} {e rest : List UInt8}
    (h : Split s before e rest) (hnul : ∀ l ∈ ExportExact.headerLines s, 0 ∉ l) :
    (∀ l ∈ before, endsHeader l = false ∧ 0 ∉ l) ∧ 0 ∉ e := by
  rw [h.headerLines, List.forall_mem_append, List.forall_mem_singleton] at hnul
  exact ⟨fun l hl => ⟨h.notEnd l hl, hnul.1 l hl⟩, hnul.2⟩

theorem Split.afterHeader {s : List UInt8} {before : List (List UInt8)} {e rest : List UInt8}
    (h : Split s before e rest) : afterHeader s = rest := by
  unfold ExportExact.afterHeader
  rw [h.dropWhile.2, List.drop_one, List.tail_cons, flatten_splitLines]

theorem headerLines_append (s : List UInt8) : (headerLines s).flatten ++ afterHeader s = s := by
  unfold headerLines afterHeader
  rw [← List.flatten_append, List.append_assoc, List.take_append_drop, List.takeWhile_append_dropWhile,
    flatten_splitLines]

theorem headerLines_noNul {s : List UInt8} (h : 0 ∉ s) : ∀ l ∈ headerLines s, 0 ∉ l := by
  intro l hl h0
  rw [← headerLines_append s] at h
  exact h (List.mem_append_left _ (List.mem_flatten.mpr ⟨l, hl, h0⟩))

theorem mem_headerLines_head {s l : List UInt8} {ls : List (List UInt8)} (h : splitLines s = l :: ls) :
    l ∈ headerLines s := by
  unfold headerLines
  rw [h, List.takeWhile_cons, List.dropWhile_cons]
  split_ifs <;> simp

theorem headerLines_cons {s p u : List UInt8} (h : splitLines s = p :: splitLines u)
    (hp : endsHeader p = false) : headerLines s = p :: headerLines u := by
  unfold headerLines
  rw [h, List.takeWhile_cons, List.dropWhile_cons, hp]
  rfl

/-! ### The first scanner -/

theorem lastObsOf_append (ls : List (List UInt8)) (l : List UInt8) :
    lastObsOf (ls ++ [l]) = if rinexLabelEquals l "TIME OF LAST OBS" then some (l.take 60)
      else lastObsOf ls := by
  unfold lastObsOf
  rw [List.filter_append, List.filter_cons]
  split_ifs
  · rw [List.filter_nil, List.getLast?_append]
    rfl
  · rw [List.filter_nil, List.append_nil]

/-- **A header that is accepted**: its lines fit both buffers, and both scanners find its end. -/
theorem scanHeader_accepts (name : List UInt8) (large : ℕ) (hlarge : lineSize ≤ large) :
    ∀ (ps : List (List UInt8)) {s : List UInt8} (seen : List (List UInt8)) (c : HeaderScan),
      ps = fgets lineSize s → (∀ l ∈ headerLines s, 0 ∉ l) → c.hasEnd = false → c.error = none →
      c.lastObs = lastObsOf seen →
      (scanHeader name ps c).error = none → (scanHeader name ps c).hasEnd = true →
      ∃ before e rest, Split s before e rest ∧
        fgets large s = before ++ e :: fgets large rest ∧
        (scanHeader name ps c).lastObs = lastObsOf (seen ++ (before ++ [e])) := by
  intro ps
  induction ps with
  | nil =>
    intro s seen c _ _ hend _ _ _ hfound
    rw [scanHeader, hend] at hfound
    cases hfound
  | cons p ps ih =>
    intro s seen c hps hnul hend herr hlast herror hfound
    -- the piece is part of the first line, which belongs to the header
    have hcstr : cStr p = p := by
      have hs : s ≠ [] := by
        rintro rfl
        cases hps
      obtain ⟨l, ls, hl⟩ := List.exists_cons_of_ne_nil (splitLines_ne_nil hs)
      obtain ⟨p', ps', hp', hpre⟩ : ∃ p ps, fgets lineSize s = p :: ps ∧ p <+: l :=
        fgets_line (by decide) hl
      obtain ⟨rfl, -⟩ := List.cons.inj (hps.trans hp')
      exact cStr_eq_self fun h => hnul l (mem_headerLines_head hl) (hpre.subset h)
    rw [scanHeader] at herror hfound ⊢
    dsimp only at herror hfound ⊢
    rw [hcstr] at herror hfound ⊢
    by_cases hlong : p.length = lineSize - 1 ∧ p.getLast? ≠ some lf
    · rw [if_pos hlong] at herror
      cases herror
    · rw [if_neg hlong] at herror hfound ⊢
      have hwhole : Whole lineSize p := by
        rcases not_and_or.mp hlong with h | h
        · refine Or.inl fun heq => h ?_
          rw [← heq]
          rfl
        · exact Or.inr (not_not.mp h)
      obtain ⟨u, hu, hrest, hlines, hfit⟩ := fgets_whole (by decide) hps.symm hwhole
      have hlarger := fgets_of_line hu hlines (hfit.trans hlarge)
      have hseen : (c.line p).lastObs = lastObsOf (seen ++ [p]) := by
        rw [lastObsOf_append, ← hlast]
        rfl
      by_cases hends : rinexLabelEquals p "END OF HEADER" = true
      · rw [if_pos hends] at hfound ⊢
        refine ⟨[], p, u, ⟨by rw [hu]; rfl, hlines, by simp, hends⟩, hlarger, ?_⟩
        rw [hseen]
        rfl
      · rw [if_neg hends] at herror hfound ⊢
        by_cases hlimit : kRinexHeaderScanLimit < (c.line p).scanned ∨
            kRinexHeaderLineLimit < (c.line p).lines
        · rw [if_pos hlimit] at herror
          cases herror
        · rw [if_neg hlimit] at herror hfound ⊢
          have hnul' : ∀ l ∈ headerLines u, 0 ∉ l := fun l hl =>
            hnul l (headerLines_cons hlines (Bool.not_eq_true _ ▸ hends) ▸ List.mem_cons_of_mem _ hl)
          obtain ⟨before, e, rest, hsplit, hlater, hobs⟩ :=
            ih (seen ++ [p]) (c.line p) hrest hnul' hend herr hseen herror hfound
          refine ⟨p :: before, e, rest, ⟨?_, ?_, ?_, hsplit.ends⟩, ?_, ?_⟩
          · rw [hu, hsplit.bytes, List.flatten_cons, List.append_assoc]
          · rw [hlines, hsplit.lines, List.cons_append]
          · intro l hl
            rcases List.mem_cons.mp hl with rfl | hl
            · exact Bool.not_eq_true _ ▸ hends
            · exact hsplit.notEnd l hl
          · rw [hlarger, hlater, List.cons_append]
          · rw [hobs, List.append_assoc]
            rfl

theorem checkRinexHeader_ok {f : SourceFile} (hnul : ∀ l ∈ headerLines f.bytes, 0 ∉ l)
    (hok : (checkRinexHeader f).ok = true) :
    ∃ before e rest, Split f.bytes before e rest ∧
      fgets kRinexExportMaxChunkBytes f.bytes =
        before ++ e :: fgets kRinexExportMaxChunkBytes rest ∧
      (checkRinexHeader f).lastObsValue = lastObsOf (headerLines f.bytes) := by
  unfold checkRinexHeader at hok ⊢
  dsimp only at hok ⊢
  by_cases hempty : f.bytes = []
  · rw [if_pos hempty] at hok
    cases hok
  · rw [if_neg hempty] at hok ⊢
    rcases herror : (scanHeader (pathBasename f.path) (fgets lineSize f.bytes) {}).error with _ | error
    · rw [herror] at hok
      dsimp only at hok ⊢
      split_ifs at hok ⊢ with hversion hend
      obtain ⟨before, e, rest, hsplit, hpieces, hobs⟩ := scanHeader_accepts (pathBasename f.path)
        kRinexExportMaxChunkBytes (by decide) _ [] {} rfl hnul rfl rfl rfl herror
        (by simpa using hend)
      refine ⟨before, e, rest, hsplit, hpieces, ?_⟩
      rw [hsplit.headerLines]
      exact hobs
    · rw [herror] at hok
      cases hok

/-! ### The stream -/

theorem eolOf_eq {line t : List UInt8} (h : line = t ++ [lf]) : eolOf line = lineEnd line := by
  have hiff : (2 ≤ line.length ∧ line.getD (line.length - 2) 0 = cr) ↔ [cr, lf] <:+ line := by
    rw [h]
    rcases List.eq_nil_or_concat t with rfl | ⟨t, b, rfl⟩
    · refine iff_of_false (fun h2 => ?_) fun h2 => ?_
      · have := h2.1
        simp at this
      · have := h2.length_le
        simp at this
    · have hidx : (t.concat b ++ [lf]).length - 2 = t.length := by simp
      rw [hidx, List.concat_eq_append, List.append_assoc, List.getD_append_right _ _ _ _ le_rfl,
        Nat.sub_self]
      constructor
      · rintro ⟨-, hb⟩
        rw [show b = cr from hb]
        exact List.suffix_append _ _
      · intro hsuf
        refine ⟨by simp, ?_⟩
        have heq := List.suffix_of_suffix_length_le hsuf (List.suffix_append t [b, lf]) le_rfl
        have := List.IsSuffix.eq_of_length heq rfl
        rw [(List.cons.inj this).1]
        rfl
  unfold eolOf lineEnd
  simp only [hiff]

theorem headerChunk_eq {line t v : List UInt8} (h : line = t ++ [lf]) (hv : v ≠ []) :
    headerChunk v line = patched (some v) line := by
  have hiff : (v ≠ [] ∧ 76 ≤ line.length ∧ (line.drop 60).take 16 = ascii "TIME OF LAST OBS") ↔
      rinexLabelEquals line "TIME OF LAST OBS" = true := by
    have hlen : (ascii "TIME OF LAST OBS").length = 16 := by decide
    unfold rinexLabelEquals
    rw [hlen, Bool.and_eq_true, decide_eq_true_eq, decide_eq_true_eq]
    constructor
    · rintro ⟨-, h76, hlabel⟩
      exact ⟨by omega, hlabel⟩
    · rintro ⟨h60, hlabel⟩
      refine ⟨hv, ?_, hlabel⟩
      have hl := congrArg List.length hlabel
      rw [hlen, List.length_take, List.length_drop] at hl
      omega
  unfold headerChunk patched
  rw [eolOf_eq h]
  simp only [hiff]

theorem notLastObs_of_ends {line : List UInt8} (h : endsHeader line = true) :
    rinexLabelEquals line "TIME OF LAST OBS" = false := by
  have h13 : (ascii "END OF HEADER").length = 13 := by decide
  have h16 : (ascii "TIME OF LAST OBS").length = 16 := by decide
  unfold endsHeader rinexLabelEquals at h
  unfold rinexLabelEquals
  rw [Bool.and_eq_true, decide_eq_true_eq, decide_eq_true_eq, h13] at h
  rw [h16, ← Bool.not_eq_true, Bool.and_eq_true, decide_eq_true_eq, decide_eq_true_eq]
  rintro ⟨-, h'⟩
  have htake : ((line.drop 60).take 16).take 13 = (line.drop 60).take 13 := by
    rw [List.take_take]
    rfl
  rw [h', h.2] at htake
  exact absurd htake (by decide)

theorem patched_of_ends {line : List UInt8} (h : endsHeader line = true) (value : Option (List UInt8)) :
    patched value line = line := by
  unfold patched
  rw [notLastObs_of_ends h]
  cases value <;> rfl

theorem headerChunk_of_not {line : List UInt8} (v : List UInt8)
    (h : rinexLabelEquals line "TIME OF LAST OBS" = false) : headerChunk v line = line := by
  have h16 : (ascii "TIME OF LAST OBS").length = 16 := by decide
  unfold headerChunk
  rw [if_neg]
  rintro ⟨-, hlen, hlabel⟩
  unfold rinexLabelEquals at h
  rw [h16, hlabel, decide_eq_true rfl, Bool.and_true, decide_eq_false_iff_not] at h
  omega

theorem sendHeader_eq (v : List UInt8) {e : List UInt8} (pieces : List (List UInt8))
    (hends : endsHeader e = true) (he : 0 ∉ e) :
    ∀ {before : List (List UInt8)}, (∀ l ∈ before, endsHeader l = false ∧ 0 ∉ l) →
      sendHeader v (before ++ e :: pieces) = ((before ++ [e]).map (headerChunk v), pieces)
  | [], _ => by
    rw [List.nil_append, sendHeader, cStr_eq_self he]
    exact if_pos hends
  | l :: before, h => by
    obtain ⟨hl, hnul⟩ := h l List.mem_cons_self
    rw [List.cons_append, sendHeader, cStr_eq_self hnul]
    dsimp only
    rw [show rinexLabelEquals l "END OF HEADER" = false from hl, if_neg Bool.false_ne_true,
      sendHeader_eq v pieces hends he fun l hl => h l (List.mem_cons_of_mem _ hl)]
    rfl

theorem skipHeader_eq {e : List UInt8} (pieces : List (List UInt8)) (hends : endsHeader e = true)
    (he : 0 ∉ e) : ∀ {before : List (List UInt8)}, (∀ l ∈ before, endsHeader l = false ∧ 0 ∉ l) →
      skipHeader (before ++ e :: pieces) = some pieces
  | [], _ => by
    rw [List.nil_append, skipHeader, cStr_eq_self he]
    exact if_pos hends
  | l :: before, h => by
    obtain ⟨hl, hnul⟩ := h l List.mem_cons_self
    rw [List.cons_append, skipHeader, cStr_eq_self hnul,
      show rinexLabelEquals l "END OF HEADER" = false from hl, if_neg Bool.false_ne_true,
      skipHeader_eq pieces hends he fun l hl => h l (List.mem_cons_of_mem _ hl)]

theorem flatten_sendFirst {s : List UInt8} {before : List (List UInt8)} {e rest : List UInt8}
    (h : Split s before e rest) (hnul : ∀ l ∈ headerLines s, 0 ∉ l)
    (hpieces : fgets kRinexExportMaxChunkBytes s =
      before ++ e :: fgets kRinexExportMaxChunkBytes rest) {value : Option (List UInt8)}
    (hvalue : ∀ v, value = some v → v ≠ [])
    (hnone : value = none → ∀ l ∈ before, rinexLabelEquals l "TIME OF LAST OBS" = false) (chunk : ℕ) :
    (sendFirst (value.getD []) chunk s).flatten =
        (headerLines s).flatMap (patched value) ++ afterHeader s ∧
      ∀ p ∈ sendFirst (value.getD []) chunk s, p ≠ [] := by
  obtain ⟨hbefore, he⟩ := h.noNul hnul
  have hchunk : ∀ l ∈ before ++ [e], headerChunk (value.getD []) l = patched value l := by
    intro l hl
    rcases List.mem_append.mp hl with hl | hl
    · obtain ⟨a, b, rfl⟩ := List.append_of_mem hl
      have hlines := h.lines
      rw [List.append_assoc, List.cons_append] at hlines
      obtain ⟨t, ht⟩ := splitLines_ended hlines
        (List.append_ne_nil_of_right_ne_nil _ (List.cons_ne_nil _ _))
      rcases value with _ | v
      · exact headerChunk_of_not _ (hnone rfl l hl)
      · exact headerChunk_eq ht (hvalue v rfl)
    · rw [List.mem_singleton.mp hl, patched_of_ends h.ends,
        headerChunk_of_not _ (notLastObs_of_ends h.ends)]
  have hsend : sendFirst (value.getD []) chunk s =
      (before ++ [e]).map (patched value) ++ fread chunk rest := by
    unfold sendFirst
    rw [hpieces, sendHeader_eq _ _ h.ends he hbefore]
    dsimp only
    rw [flatten_fgets, List.map_congr_left hchunk]
  rw [hsend]
  constructor
  · rw [List.flatten_append, flatten_fread, h.headerLines, h.afterHeader, List.flatMap_def]
  · intro p hp
    rcases List.mem_append.mp hp with hp | hp
    · obtain ⟨l, hl, rfl⟩ := List.mem_map.mp hp
      have hpiece : l ∈ fgets kRinexExportMaxChunkBytes s := by
        rw [hpieces]
        rcases List.mem_append.mp hl with hl | hl
        · exact List.mem_append_left _ hl
        · rw [List.mem_singleton.mp hl]
          exact List.mem_append_right _ List.mem_cons_self
      have hne : l ≠ [] := fgets_ne_nil hpiece
      unfold patched
      split
      · exact hne
      · split_ifs
        · rename_i v _
          rw [List.append_assoc]
          exact List.append_ne_nil_of_right_ne_nil _ (List.append_ne_nil_of_left_ne_nil (by decide) _)
        · exact hne
    · exact fread_ne_nil hp

theorem sendLater_eq {s : List UInt8} {before : List (List UInt8)} {e rest : List UInt8}
    (h : Split s before e rest) (hnul : ∀ l ∈ headerLines s, 0 ∉ l)
    (hpieces : fgets kRinexExportMaxChunkBytes s =
      before ++ e :: fgets kRinexExportMaxChunkBytes rest) (chunk : ℕ) :
    sendLater chunk s = fread chunk (afterHeader s) := by
  obtain ⟨hbefore, he⟩ := h.noNul hnul
  unfold sendLater
  rw [hpieces, skipHeader_eq _ h.ends he hbefore]
  dsimp only
  rw [flatten_fgets, h.afterHeader]

/-! ### The handler -/

/-- The value that is put into the first header: that of the last file with such a line. -/
def lastValue (files : List SourceFile) : Option (List UInt8) :=
  (files.filterMap fun f => lastObsOf (headerLines f.bytes)).getLast?

/-- What the client gets for files that pass. -/
def merged (first : SourceFile) (later : List SourceFile) : List UInt8 :=
  (headerLines first.bytes).flatMap (patched (lastValue (first :: later))) ++
    (afterHeader first.bytes ++ later.flatMap fun f => afterHeader f.bytes)

theorem findSome?_reverse_getLast? {α β : Type} (f : α → Option β) (l : List α) :
    l.reverse.findSome? f = (l.filterMap f).getLast? := by
  rw [← List.head?_filterMap, List.filterMap_reverse, List.head?_reverse]

theorem lastObsOf_ne_nil {lines : List (List UInt8)} {v : List UInt8} (h : lastObsOf lines = some v) :
    v ≠ [] := by
  obtain ⟨l, hl, rfl⟩ := Option.map_eq_some_iff.mp h
  have hlabel := (List.mem_filter.mp (List.mem_of_getLast? hl)).2
  unfold rinexLabelEquals at hlabel
  rw [Bool.and_eq_true, decide_eq_true_eq] at hlabel
  intro hnil
  have := congrArg List.length hnil
  rw [List.length_take, List.length_nil] at this
  omega

theorem lastObsOf_eq_none {lines : List (List UInt8)} (h : lastObsOf lines = none) :
    ∀ l ∈ lines, rinexLabelEquals l "TIME OF LAST OBS" = false := by
  intro l hl
  have hnil := List.getLast?_eq_none_iff.mp (Option.map_eq_none_iff.mp h)
  exact Bool.not_eq_true _ ▸ List.filter_eq_nil_iff.mp hnil l hl

theorem handler_stream (current : List UInt8) {first : SourceFile} {later : List SourceFile}
    (hidle : selectedActiveRinexFile (first :: later) current = false)
    (hok : ∀ f ∈ first :: later, (checkRinexHeader f).ok = true) :
    ∃ chunk, rinexExportHandler current (first :: later) = .stream
      (sendFirst ((((first :: later).map checkRinexHeader).reverse.findSome? (·.lastObsValue)).getD [])
        chunk first.bytes ++ later.flatMap fun f => sendLater chunk f.bytes) := by
  have hpass : ((first :: later).map checkRinexHeader).find? (fun check => !check.ok) = none := by
    refine List.find?_eq_none.mpr fun check hcheck => ?_
    obtain ⟨f, hf, rfl⟩ := List.mem_map.mp hcheck
    rw [hok f hf]
    decide
  unfold rinexExportHandler
  rw [if_neg (List.cons_ne_nil _ _), hidle, if_neg Bool.false_ne_true]
  dsimp only
  rw [hpass]
  exact ⟨_, rfl⟩

theorem stream_merged (current : List UInt8) {first : SourceFile} {later : List SourceFile}
    (hidle : selectedActiveRinexFile (first :: later) current = false)
    (hok : ∀ f ∈ first :: later, (checkRinexHeader f).ok = true)
    (hnul : ∀ f ∈ first :: later, ∀ l ∈ headerLines f.bytes, 0 ∉ l) :
    ∃ chunks, rinexExportHandler current (first :: later) = .stream chunks ∧
      (∀ c ∈ chunks, c ≠ []) ∧ chunks.flatten = merged first later := by
  have hobs : ∀ f ∈ first :: later,
      (checkRinexHeader f).lastObsValue = lastObsOf (headerLines f.bytes) := fun f hf => by
    obtain ⟨-, -, -, -, -, h⟩ := checkRinexHeader_ok (hnul f hf) (hok f hf)
    exact h
  have hvalue : ((first :: later).map checkRinexHeader).reverse.findSome? (·.lastObsValue) =
      lastValue (first :: later) := by
    rw [findSome?_reverse_getLast?, List.filterMap_map, lastValue]
    exact congrArg List.getLast? (List.filterMap_congr hobs)
  obtain ⟨before, e, rest, hsplit, hpieces, -⟩ :=
    checkRinexHeader_ok (hnul first List.mem_cons_self) (hok first List.mem_cons_self)
  have hsome : ∀ v, lastValue (first :: later) = some v → v ≠ [] := fun v hv => by
    obtain ⟨f, -, hf⟩ := List.mem_filterMap.mp (List.mem_of_getLast? hv)
    exact lastObsOf_ne_nil hf
  have hnone : lastValue (first :: later) = none →
      ∀ l ∈ before, rinexLabelEquals l "TIME OF LAST OBS" = false := fun hv l hl => by
    have hnil := List.filterMap_eq_nil_iff.mp (List.getLast?_eq_none_iff.mp hv) first List.mem_cons_self
    refine lastObsOf_eq_none hnil l ?_
    rw [hsplit.headerLines]
    exact List.mem_append_left _ hl
  have hlater : ∀ chunk, ∀ f ∈ later, sendLater chunk f.bytes = fread chunk (afterHeader f.bytes) :=
    fun chunk f hf => by
      have hmem := List.mem_cons_of_mem first hf
      obtain ⟨_, _, _, hs, hp, -⟩ := checkRinexHeader_ok (hnul f hmem) (hok f hmem)
      exact sendLater_eq hs (hnul f hmem) hp chunk
  obtain ⟨chunk, hstream⟩ := handler_stream current hidle hok
  rw [hvalue] at hstream
  obtain ⟨hflat, hne⟩ := flatten_sendFirst hsplit (hnul first List.mem_cons_self) hpieces hsome hnone
    chunk
  refine ⟨_, hstream, fun c hc => ?_, ?_⟩
  · rcases List.mem_append.mp hc with hc | hc
    · exact hne c hc
    · obtain ⟨f, hf, hc⟩ := List.mem_flatMap.mp hc
      rw [hlater chunk f hf] at hc
      exact fread_ne_nil hc
  · rw [List.flatten_append, hflat, merged, List.append_assoc]
    congr 2
    clear hok hnul hobs hvalue hsome hnone hstream hflat hne hidle
    induction later with
    | nil => rfl
    | cons f later ih =>
      rw [List.flatMap_cons, List.flatMap_cons, List.flatten_append,
        hlater chunk f List.mem_cons_self, flatten_fread,
        ih fun chunk f hf => hlater chunk f (List.mem_cons_of_mem _ hf)]

/-- **The export is exact.** For files that pass the check and hold no NUL byte, what is sent is the
first header, in which the `TIME OF LAST OBS` lines carry the value of the last file that has one, the
rest of the first file, and what is behind the header of each later file. No chunk is empty, so the
stream does not end early. -/
theorem export_exact (current : List UInt8) (first : SourceFile) (later : List SourceFile)
    (hidle : selectedActiveRinexFile (first :: later) current = false)
    (hok : ∀ f ∈ first :: later, (checkRinexHeader f).ok = true)
    (hnul : ∀ f ∈ first :: later, 0 ∉ f.bytes) :
    ∃ chunks, rinexExportHandler current (first :: later) = .stream chunks ∧ (∀ c ∈ chunks, c ≠ []) ∧
      chunks.flatten = (headerLines first.bytes).flatMap (patched (lastValue (first :: later))) ++
        (afterHeader first.bytes ++ later.flatMap fun f => afterHeader f.bytes) :=
  stream_merged current hidle hok fun f hf => headerLines_noNul (hnul f hf)

/-! ### Two files -/

def record (value label : String) : List UInt8 := padRight 60 (ascii value) ++ ascii label ++ [lf]

/-- A file of one epoch of one satellite. -/
def sampleFile (system satellite minute : String) : SourceFile where
  path := ascii "/sdcard/rawdata/BASE_20240204_00" ++ ascii minute ++ ascii "00.rnx"
  bytes := record "     3.03           OBSERVATION DATA" "RINEX VERSION / TYPE" ++
    record (system ++ "    1 C1C") "SYS / # / OBS TYPES" ++ record "    30.000" "INTERVAL" ++
    record "  2024     2     4     0    00    0.0000000     GPS" "TIME OF FIRST OBS" ++
    record ("  2024     2     4     0    " ++ minute ++ "    0.0000000     GPS") "TIME OF LAST OBS" ++
    record "" "END OF HEADER" ++
    ascii "> 2024  2  4  0 00  0.0000000  0  1" ++ [lf] ++ ascii satellite ++
    ascii "  20000000.000" ++ [lf]

/-- Two hours merged. -/
theorem export_exact_sample :
    ∃ chunks, rinexExportHandler [] [sampleFile "G" "G05" "10", sampleFile "G" "G07" "40"] =
        .stream chunks ∧ (∀ c ∈ chunks, c ≠ []) ∧
      chunks.flatten = (headerLines (sampleFile "G" "G05" "10").bytes).flatMap
          (patched (lastValue [sampleFile "G" "G05" "10", sampleFile "G" "G07" "40"])) ++
        (afterHeader (sampleFile "G" "G05" "10").bytes ++
          [sampleFile "G" "G07" "40"].flatMap fun f => afterHeader f.bytes) :=
  export_exact [] (sampleFile "G" "G05" "10") [sampleFile "G" "G07" "40"] (by decide +kernel)
    (by decide +kernel) (by decide +kernel)

end GpsBase.Web.ExportExact
