import GpsBase.Rinex.Splices

/-! # The framer recovers

After any bytes at all, whole messages are framed again: the first one may be lost, to a message that was
left without its end or to a full buffer, and every one after it is handed over as it is, if it is a RANGEA
message (`framing_recovers`). A message ends at its only line feed, so after it the framer is idle, whatever
it had collected (`Busy.message`). -/

namespace GpsBase.Rinex.Recovery

open GpsBase.Lib.CText GpsBase.Rinex.Logger GpsBase.Rinex.Logger.RinexLogger GpsBase.Rinex.Splices
open GpsBase.Lib.Lines (lf cr)

/-! ### Messages -/

/-- **A well-formed message**: the marker, no other one and no line feed before the end, a star, eight
characters and a line end; 13 to 32767 bytes. -/
structure WellFormed (msg : List UInt8) : Prop where
  shape : ∃ body crc : List UInt8, crc.length = 8 ∧
    msg = marker :: (body ++ '*'.toUInt8 :: (crc ++ [cr, lf]))
  one : marker ∉ msg.tail
  line : lf ∉ msg.dropLast
  least : 13 ≤ msg.length
  most : msg.length ≤ 32767

/-- The indices of `msg_buf_` that a byte of `feed` can touch: where it is stored, where a star is looked
for, where the text is ended and compared. -/
def touched (l : RinexLogger) (b : UInt8) : List ℤ :=
  if !l.inMsg then if b = '#'.toUInt8 then [0] else []
  else if l.msg.length < kMsgBufSize - 1 then
    let msg := l.msg ++ [b]
    (l.msg.length : ℤ) ::
      if b = lf ∧ 12 < msg.length then
        ((List.range 11).map fun k : ℕ => (msg.length : ℤ) - 2 - k) ++
          if '*'.toUInt8 ∈ (msg.drop (msg.length - 12)).take 11 then
            (msg.length : ℤ) :: (List.range 8).map fun k : ℕ => (k : ℤ)
          else []
      else []
  else []

/-- **The buffer is large enough**, whatever is collected. -/
theorem touched_bounds (l : RinexLogger) (b : UInt8) :
    ∀ i ∈ touched l b, 0 ≤ i ∧ i < kMsgBufSize := by
  intro i hi
  unfold touched at hi
  dsimp only at hi
  split_ifs at hi with hidle hmarker hroom hend hstar
  · rw [List.mem_singleton.mp hi]
    exact ⟨le_refl 0, by decide⟩
  · cases hi
  · unfold kMsgBufSize at hroom ⊢
    rw [List.length_append, List.length_singleton] at hi hend
    simp only [List.mem_cons, List.mem_append, List.mem_map, List.mem_range] at hi
    rcases hi with rfl | ⟨k, hk, rfl⟩ | rfl | ⟨k, hk, rfl⟩
    · omega
    · omega
    · omega
    · omega
  · unfold kMsgBufSize at hroom ⊢
    rw [List.length_append, List.length_singleton] at hi hend
    simp only [List.mem_cons, List.mem_append, List.mem_map, List.mem_range, List.not_mem_nil,
      or_false] at hi
    rcases hi with rfl | ⟨k, hk, rfl⟩
    · omega
    · omega
  · unfold kMsgBufSize at hroom ⊢
    rw [List.mem_singleton.mp hi]
    omega
  · cases hi

/-! ### The framer between and within messages -/

variable (c : Clib)

theorem idle_fed {l : RinexLogger} (hidle : l.inMsg = false) {data : List UInt8} (h : marker ∉ data) :
    handedIn c l data = [] ∧ (data.foldl (feedByte c) l).inMsg = false := by
  induction data generalizing l with
  | nil => exact ⟨rfl, hidle⟩
  | cons b data ih =>
    rw [List.mem_cons, not_or] at h
    obtain ⟨hb, hdata⟩ := h
    have hstay : (feedByte c l b).inMsg = false := by
      rw [(framed_feedByte c l b).1, framed, if_pos hidle, if_neg (Ne.symm hb)]
    have hnone : handed l b = none := by
      unfold handed
      rw [if_neg]
      rintro ⟨hin, -⟩
      rw [hidle] at hin
      cases hin
    obtain ⟨hrest, hlast⟩ := ih hstay hdata
    refine ⟨?_, hlast⟩
    rw [handedIn, hnone, hrest]
    rfl

theorem collected {l : RinexLogger} (hin : l.inMsg = true) {b : UInt8} (hb : b ≠ lf)
    (hroom : l.msg.length < kMsgBufSize - 1) :
    handed l b = none ∧ (feedByte c l b).inMsg = true ∧ (feedByte c l b).msg = l.msg ++ [b] := by
  have hended : ¬ Ended (l.msg ++ [b]) := fun hended => hb ((ended_concat l.msg b).mp hended).1
  have hframed : framed l b = (true, l.msg ++ [b]) := by
    unfold framed
    rw [if_neg (by rw [hin]; exact Bool.noConfusion), if_pos hroom, if_neg hended]
  refine ⟨?_, ?_, ?_⟩
  · unfold handed
    rw [if_neg fun h => hended h.2.2.1]
  · rw [(framed_feedByte c l b).1, hframed]
  · rw [(framed_feedByte c l b).2, hframed]

theorem dropped {l : RinexLogger} (hin : l.inMsg = true) (b : UInt8)
    (hfull : ¬ l.msg.length < kMsgBufSize - 1) :
    handed l b = none ∧ (feedByte c l b).inMsg = false := by
  refine ⟨?_, ?_⟩
  · unfold handed
    rw [if_neg fun h => hfull h.2.1]
  · rw [(framed_feedByte c l b).1, framed, if_neg (by rw [hin]; exact Bool.noConfusion), if_neg hfull]

/-- Bytes without a line feed are collected as long as there is room. -/
theorem fed_room {data : List UInt8} (hline : lf ∉ data) {l : RinexLogger} (hin : l.inMsg = true)
    (hroom : (l.msg ++ data).length < kMsgBufSize) :
    handedIn c l data = [] ∧ (data.foldl (feedByte c) l).inMsg = true ∧
      (data.foldl (feedByte c) l).msg = l.msg ++ data := by
  induction data generalizing l with
  | nil => exact ⟨rfl, hin, (List.append_nil _).symm⟩
  | cons b data ih =>
    rw [List.mem_cons, not_or] at hline
    rw [List.length_append, List.length_cons] at hroom
    obtain ⟨hnone, hin', hmsg'⟩ := collected c hin (Ne.symm hline.1) (by omega)
    obtain ⟨hrest, hlast, hmsg⟩ := ih hline.2 hin' (by
      rw [hmsg', List.append_assoc, List.length_append]
      exact hroom)
    refine ⟨?_, hlast, ?_⟩
    · rw [handedIn, hnone, hrest]
      rfl
    · rw [List.foldl_cons, hmsg, hmsg', List.append_assoc]
      rfl

/-- Bytes that fill the buffer leave the framer idle. -/
theorem fed_full {data : List UInt8} (hline : lf ∉ data) (hmarker : marker ∉ data.tail) {l : RinexLogger}
    (hin : l.inMsg = true) (hfull : kMsgBufSize ≤ (l.msg ++ data).length) (hne : data ≠ []) :
    handedIn c l data = [] ∧ (data.foldl (feedByte c) l).inMsg = false := by
  induction data generalizing l with
  | nil => exact absurd rfl hne
  | cons b data ih =>
    rw [List.mem_cons, not_or] at hline
    rw [List.length_append, List.length_cons] at hfull
    by_cases hroom : l.msg.length < kMsgBufSize - 1
    · obtain ⟨hnone, hin', hmsg'⟩ := collected c hin (Ne.symm hline.1) hroom
      have hne' : data ≠ [] := by
        rintro rfl
        rw [List.length_nil] at hfull
        omega
      obtain ⟨hrest, hlast⟩ := ih hline.2 (fun hmem => hmarker (List.mem_of_mem_tail hmem)) hin' (by
        rw [hmsg', List.append_assoc, List.length_append]
        exact hfull) hne'
      refine ⟨?_, hlast⟩
      rw [handedIn, hnone, hrest]
      rfl
    · obtain ⟨hnone, hidle⟩ := dropped c hin b hroom
      have hnomarker : marker ∉ data := hmarker
      obtain ⟨hrest, hlast⟩ := idle_fed c hidle hnomarker
      refine ⟨?_, hlast⟩
      rw [handedIn, hnone, hrest]
      rfl

/-! ### A message -/

theorem WellFormed.split {msg : List UInt8} (h : WellFormed msg) :
    ∃ line, msg = line ++ [lf] ∧ lf ∉ line ∧ marker ∉ line.tail ∧ line ≠ [] := by
  obtain ⟨body, crc, -, hshape⟩ := h.shape
  have hline : msg = marker :: (body ++ '*'.toUInt8 :: (crc ++ [cr])) ++ [lf] := by
    rw [hshape]
    simp only [List.cons_append, List.append_assoc, List.nil_append]
  refine ⟨_, hline, ?_, fun hmem => h.one ?_, List.cons_ne_nil _ _⟩
  · have hno := h.line
    rw [hline, List.dropLast_concat] at hno
    exact hno
  · rw [hline]
    exact List.mem_append_left _ hmem

theorem WellFormed.ended {msg : List UInt8} (h : WellFormed msg) (before : List UInt8) :
    Ended (before ++ msg) := by
  obtain ⟨body, crc, hcrc, hshape⟩ := h.shape
  have hleast := h.least
  refine ⟨?_, ?_, ?_⟩
  · rw [hshape]
    simp only [← List.cons_append, ← List.append_assoc]
    rw [show before ++ marker :: body ++ '*'.toUInt8 :: crc ++ [cr, lf] =
      (before ++ marker :: body ++ '*'.toUInt8 :: crc ++ [cr]) ++ [lf] by simp, List.getLast?_concat]
  · rw [List.length_append]
    omega
  · -- the star is the eleventh byte from the end
    have hstar : (before ++ msg).drop ((before ++ msg).length - 12) =
        (before ++ marker :: body).drop ((before ++ marker :: body).length - 1) ++
          '*'.toUInt8 :: (crc ++ [cr, lf]) := by
      have hlength : (before ++ msg).length = (before ++ marker :: body).length + 11 := by
        rw [hshape]
        simp only [List.length_append, List.length_cons, List.length_nil, hcrc]
        omega
      rw [hlength, hshape, ← List.cons_append, ← List.append_assoc, List.drop_append_of_le_length (by omega),
        show (before ++ marker :: body).length + 11 - 12 = (before ++ marker :: body).length - 1 by omega]
    have hone : ((before ++ marker :: body).drop ((before ++ marker :: body).length - 1)).length = 1 := by
      rw [List.length_drop, List.length_append, List.length_cons]
      omega
    rw [hstar, List.take_append, hone]
    exact List.mem_append_right _ (by simp)

theorem filter_rangea {msg : List UInt8} (h : Rangea msg) : [msg].filter (Rangea ·) = [msg] :=
  List.filter_eq_self.mpr fun m hm => by
    rw [List.mem_singleton.mp hm]
    exact decide_eq_true h

theorem filter_not_rangea {msg : List UInt8} (h : ¬ Rangea msg) : [msg].filter (Rangea ·) = [] :=
  List.filter_eq_nil_iff.mpr fun m hm => by
    rw [List.mem_singleton.mp hm]
    exact fun hrangea => h (of_decide_eq_true hrangea)

/-- What is handed over when a message ends what was collected before it. -/
def joined (l : RinexLogger) (msg : List UInt8) : List (List UInt8) :=
  if (l.msg ++ msg).length < kMsgBufSize then [l.msg ++ msg].filter (Rangea ·) else []

/-- **A message on a busy framer** ends what was collected, or fills the buffer. -/
theorem message_busy {l : RinexLogger} (hin : l.inMsg = true) {line : List UInt8} (hline : lf ∉ line)
    (hmarker : marker ∉ line.tail) (hne : line ≠ []) (hended : Ended (l.msg ++ (line ++ [lf]))) :
    handedIn c l (line ++ [lf]) = joined l (line ++ [lf]) ∧
      ((line ++ [lf]).foldl (feedByte c) l).inMsg = false := by
  rw [handedIn_append, List.foldl_append, List.foldl_cons, List.foldl_nil, joined]
  by_cases hroom : (l.msg ++ line).length < kMsgBufSize
  · obtain ⟨hnone, hin', hmsg⟩ := fed_room c hline hin hroom
    rw [hnone, List.nil_append]
    set k := line.foldl (feedByte c) l with hk
    rw [← List.append_assoc, ← hmsg] at hended ⊢
    have hlength : (k.msg ++ [lf]).length = k.msg.length + 1 := by
      rw [List.length_append, List.length_singleton]
    by_cases hmore : k.msg.length < kMsgBufSize - 1
    · rw [if_pos (by omega)]
      refine ⟨?_, ?_⟩
      · rw [handedIn, handedIn, List.append_nil, handed]
        by_cases hrangea : Rangea (k.msg ++ [lf])
        · rw [if_pos ⟨hin', hmore, hended, hrangea⟩, filter_rangea hrangea]
          rfl
        · rw [if_neg fun h => hrangea h.2.2.2, filter_not_rangea hrangea]
          rfl
      · rw [(framed_feedByte c k lf).1, framed, if_neg (by rw [hin']; exact Bool.noConfusion), if_pos hmore,
          if_pos hended]
    · rw [if_neg (by omega)]
      obtain ⟨hnone', hidle⟩ := dropped c hin' lf hmore
      refine ⟨?_, hidle⟩
      rw [handedIn, hnone']
      rfl
  · obtain ⟨hnone, hidle⟩ := fed_full c hline hmarker hin (not_lt.mp hroom) hne
    obtain ⟨hnone', hlast⟩ := idle_fed c hidle (by decide : marker ∉ [lf])
    rw [hnone, hnone', if_neg]
    · exact ⟨rfl, hlast⟩
    · rw [← List.append_assoc, List.length_append]
      omega

/-- **A message on an idle framer** is handed over if it is a RANGEA message. -/
theorem message_idle {l : RinexLogger} (hidle : l.inMsg = false) {msg : List UInt8} (h : WellFormed msg) :
    handedIn c l msg = [msg].filter (Rangea ·) ∧ (msg.foldl (feedByte c) l).inMsg = false := by
  obtain ⟨line, hline, hlf, hmarker, hne⟩ := h.split
  obtain ⟨body, crc, -, hshape⟩ := h.shape
  obtain ⟨b, rest, rfl⟩ := List.exists_cons_of_ne_nil hne
  obtain rfl : b = marker := (List.cons.inj (hline.symm.trans hshape)).1
  -- the marker, and the rest of the message on the framer it makes busy
  have hframed : framed l marker = (true, [marker]) := by
    unfold framed
    rw [if_pos hidle, if_pos rfl]
  obtain ⟨hin, hmsg⟩ := framed_feedByte c l marker
  rw [hframed] at hin hmsg
  have hnone : handed l marker = none := by
    unfold handed
    rw [if_neg]
    rintro ⟨hin, -⟩
    rw [hidle] at hin
    cases hin
  rw [List.mem_cons, not_or] at hlf
  have hrest : rest ≠ [] := by
    rintro rfl
    have hleast := h.least
    rw [hline] at hleast
    exact absurd hleast (by decide)
  obtain ⟨hhanded, hlast⟩ := message_busy c hin hlf.2 (fun hmem => hmarker (List.mem_of_mem_tail hmem))
    hrest (by
      rw [hmsg]
      have hended := h.ended []
      rw [hline] at hended
      exact hended)
  have hjoined : (feedByte c l marker).msg ++ (rest ++ [lf]) = msg := by
    rw [hmsg, hline]
    rfl
  rw [hline, List.cons_append]
  refine ⟨?_, hlast⟩
  rw [handedIn, hnone, hhanded, joined, hjoined, if_pos]
  · rw [hline]
    rfl
  · have hmost := h.most
    unfold kMsgBufSize
    omega

theorem messages_idle {l : RinexLogger} (hidle : l.inMsg = false) {msgs : List (List UInt8)}
    (h : ∀ msg ∈ msgs, WellFormed msg) :
    handedIn c l msgs.flatten = msgs.filter (Rangea ·) := by
  induction msgs generalizing l with
  | nil => rfl
  | cons msg msgs ih =>
    obtain ⟨hhanded, hlast⟩ := message_idle c hidle (h msg List.mem_cons_self)
    rw [List.flatten_cons, handedIn_append, hhanded,
      ih hlast fun m hm => h m (List.mem_cons_of_mem msg hm), ← List.filter_append]
    rfl

/-! ### Every stream -/

theorem msg_suffix {l : RinexLogger} (data : List UInt8)
    (hin : (data.foldl (feedByte c) l).inMsg = true) :
    (data.foldl (feedByte c) l).msg <:+ l.msg ++ data := by
  induction data using List.reverseRecOn with
  | nil =>
    rw [List.append_nil]
    exact List.suffix_rfl
  | append_singleton data b ih =>
    rw [List.foldl_append, List.foldl_cons, List.foldl_nil] at hin ⊢
    obtain ⟨hin', hmsg'⟩ := framed_feedByte c (data.foldl (feedByte c) l) b
    rw [hin'] at hin
    rw [hmsg']
    unfold framed at hin ⊢
    split_ifs at hin ⊢ with hidle hmarker hroom hended
    · exact ⟨l.msg ++ data, List.append_assoc ..⟩
    · rw [Bool.not_eq_false] at hidle
      obtain ⟨early, hearly⟩ := ih hidle
      exact ⟨early, by rw [← List.append_assoc, hearly, List.append_assoc]⟩

/-- What is handed over at the end of the first message: the message, or what was collected before it and
the message. -/
def first (l : RinexLogger) : List (List UInt8) → List (List UInt8)
  | [] => []
  | msg :: _ => if l.inMsg then joined l msg else [msg].filter (Rangea ·)

theorem first_cons (l : RinexLogger) (msg : List UInt8) (msgs : List (List UInt8)) :
    first l (msg :: msgs) = if l.inMsg then joined l msg else [msg].filter (Rangea ·) := rfl

theorem length_joined (l : RinexLogger) (msg : List UInt8) : (joined l msg).length ≤ 1 := by
  unfold joined
  split_ifs
  · exact List.length_filter_le _ _
  · exact Nat.zero_le _

theorem mem_joined {l : RinexLogger} {msg m : List UInt8} (h : m ∈ joined l msg) : m = l.msg ++ msg := by
  unfold joined at h
  split_ifs at h
  · exact List.mem_singleton.mp (List.mem_of_mem_filter h)
  · cases h

/-- The first message is handed over as it is, or with what was collected before. -/
theorem mem_first {l : RinexLogger} {msgs : List (List UInt8)} {m : List UInt8} (h : m ∈ first l msgs) :
    ∃ msg, msgs.head? = some msg ∧ (m = msg ∨ l.inMsg = true ∧ l.msg ≠ [] ∧ m = l.msg ++ msg) := by
  cases msgs with
  | nil => cases h
  | cons msg msgs =>
    refine ⟨msg, rfl, ?_⟩
    rw [first_cons] at h
    split_ifs at h with hin
    · have hm := mem_joined h
      by_cases hempty : l.msg = []
      · rw [hempty] at hm
        exact Or.inl hm
      · exact Or.inr ⟨hin, hempty, hm⟩
    · exact Or.inl (List.mem_singleton.mp (List.mem_of_mem_filter h))

theorem handedIn_messages (l : RinexLogger) {msgs : List (List UInt8)} (h : ∀ m ∈ msgs, WellFormed m) :
    handedIn c l msgs.flatten = first l msgs ++ msgs.tail.filter (Rangea ·) := by
  cases msgs with
  | nil => rfl
  | cons msg msgs =>
    have hmsg := h msg List.mem_cons_self
    have hfirst : handedIn c l msg = first l (msg :: msgs) ∧ (msg.foldl (feedByte c) l).inMsg = false := by
      rw [first_cons]
      by_cases hin : l.inMsg = true
      · obtain ⟨line, hline, hlf, hmarker, hne⟩ := hmsg.split
        rw [if_pos hin, hline]
        exact message_busy c hin hlf hmarker hne (hline ▸ hmsg.ended l.msg)
      · rw [if_neg hin]
        exact message_idle c (Bool.not_eq_true _ ▸ hin) hmsg
    rw [List.flatten_cons, handedIn_append, hfirst.1,
      messages_idle c hfirst.2 fun m hm => h m (List.mem_cons_of_mem msg hm)]
    rfl

/-- **The framer recovers.** After any bytes, in any chunks, the messages of a sequence are handed over as
they are, each RANGEA message once, except that instead of the first there may be nothing, or a buffer that
began before the sequence; and no index leaves the buffer. -/
theorem framing_recovers {l : RinexLogger} (hactive : l.active = true) {feeds : List (List UInt8)}
    {garbage : List UInt8} {msgs : List (List UInt8)} (hfeeds : feeds.flatten = garbage ++ msgs.flatten)
    (hmsgs : ∀ m ∈ msgs, WellFormed m) :
    (∃ head, handedBy c l feeds = handedIn c l garbage ++ head ++ msgs.tail.filter (Rangea ·) ∧
      head.length ≤ 1 ∧ ∀ m ∈ head, ∃ msg, msgs.head? = some msg ∧
        (m = msg ∨ ∃ before, before ≠ [] ∧ before <:+ l.msg ++ garbage ∧ m = before ++ msg)) ∧
      ∀ before b after, feeds.flatten = before ++ b :: after →
        ∀ i ∈ touched (before.foldl (feedByte c) l) b, 0 ≤ i ∧ i < 32768 := by
  refine ⟨⟨first (garbage.foldl (feedByte c) l) msgs, ?_, ?_, fun m hm => ?_⟩,
    fun before b after _ => touched_bounds _ b⟩
  · rw [handedBy_eq c feeds hactive, hfeeds, handedIn_append, handedIn_messages c _ hmsgs,
      List.append_assoc]
  · cases msgs with
    | nil => exact Nat.zero_le _
    | cons msg msgs =>
      rw [first_cons]
      split_ifs
      · exact length_joined _ msg
      · exact List.length_filter_le _ _
  · obtain ⟨msg, hmsg, hcases⟩ := mem_first hm
    refine ⟨msg, hmsg, hcases.imp id ?_⟩
    rintro ⟨hin, hne, rfl⟩
    exact ⟨_, hne, msg_suffix c garbage hin, rfl⟩

def sample (digit : UInt8) : List UInt8 :=
  marker :: ((ascii "RANGEA," ++ [digit]) ++ '*'.toUInt8 :: (ascii "00000000" ++ [cr, lf]))

/-- A message that lost its end, and two whole ones. -/
def cutOff : List (List UInt8) :=
  [ascii "#RANGEA,", sample 49 ++ ascii "#RAN", (sample 50).drop 4]

theorem wellFormed_sample : WellFormed (sample 49) ∧ WellFormed (sample 50) := by
  have hfacts : ∀ digit ∈ [(49 : UInt8), 50], marker ∉ (sample digit).tail ∧
      lf ∉ (sample digit).dropLast ∧ 13 ≤ (sample digit).length ∧ (sample digit).length ≤ 32767 := by
    decide +kernel
  have hall : ∀ digit ∈ [(49 : UInt8), 50], WellFormed (sample digit) := by
    intro digit hdigit
    obtain ⟨hone, hline, hleast, hmost⟩ := hfacts digit hdigit
    exact ⟨⟨ascii "RANGEA," ++ [digit], ascii "00000000", rfl, rfl⟩, hone, hline, hleast, hmost⟩
  exact ⟨hall 49 (by decide), hall 50 (by decide)⟩

theorem framing_recovers_cutOff :
    ∃ head, handedBy Sessions.sampleClib started cutOff =
        handedIn Sessions.sampleClib started (ascii "#RANGEA,") ++ head ++ [sample 50] ∧
      head.length ≤ 1 := by
  have hfacts : cutOff.flatten = ascii "#RANGEA," ++ [sample 49, sample 50].flatten ∧
      [sample 50].filter (Rangea ·) = [sample 50] := by
    decide +kernel
  obtain ⟨⟨head, hhanded, hlength, -⟩, -⟩ := framing_recovers Sessions.sampleClib
    (show started.active = true from rfl) hfacts.1 fun m hm => by
      rcases List.mem_cons.mp hm with rfl | hm
      · exact wellFormed_sample.1
      · rw [List.mem_singleton.mp hm]
        exact wellFormed_sample.2
  rw [List.tail_cons, hfacts.2] at hhanded
  exact ⟨head, hhanded, hlength⟩

end GpsBase.Rinex.Recovery
