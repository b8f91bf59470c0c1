import GpsBase.Rinex.Sessions

/-! # Messages run together

The framer of `feed` looks for the start marker only while it is idle. A marker that comes while a
RANGEA message is being collected, after a lost tail, goes into that message, and the next message's
end ends both. So the buffers handed to `process_message` hold one message each exactly if no marker
comes inside a RANGEA message that still reaches an end before the buffer is full
(`one_message_iff`). -/

namespace GpsBase.Rinex.Splices

open GpsBase.Lib.CText GpsBase.Rinex.Logger GpsBase.Rinex.Logger.RinexLogger
open GpsBase.Rinex.Parts (active_feed)
open GpsBase.Lib.Lines (lf cr)

/-- The byte that starts a message. -/
def marker : UInt8 := '#'.toUInt8

/-! ### What is handed over -/

/-- The buffer ends a message: a line feed, with a star among the eleven bytes before it. -/
def Ended (msg : List UInt8) : Prop :=
  msg.getLast? = some lf ∧ 12 < msg.length ∧ '*'.toUInt8 ∈ (msg.drop (msg.length - 12)).take 11

instance (msg : List UInt8) : Decidable (Ended msg) :=
  inferInstanceAs (Decidable (_ ∧ _ ∧ _))

/-- The buffer begins as a RANGEA message does. -/
def Rangea (msg : List UInt8) : Prop := msg.take 8 = ascii "#RANGEA,"

instance (msg : List UInt8) : Decidable (Rangea msg) := inferInstanceAs (Decidable (_ = _))

/-- The buffer a byte of `feed` hands to `process_message`. -/
def handed (l : RinexLogger) (b : UInt8) : Option (List UInt8) :=
  if l.inMsg = true ∧ l.msg.length < kMsgBufSize - 1 ∧ Ended (l.msg ++ [b]) ∧ Rangea (l.msg ++ [b]) then
    some (l.msg ++ [b])
  else none

/-- The buffers handed over while bytes are fed. -/
def handedIn (c : Clib) : RinexLogger → List UInt8 → List (List UInt8)
  | _, [] => []
  | l, b :: data => (handed l b).toList ++ handedIn c (feedByte c l b) data

/-- The buffers handed over by calls of `feed`. -/
def handedBy (c : Clib) : RinexLogger → List (List UInt8) → List (List UInt8)
  | _, [] => []
  | l, data :: feeds =>
    (if l.active then handedIn c l data else []) ++ handedBy c (l.feed c data) feeds

/-- **One message each**: the marker stands only at the first byte. -/
def OneMessage (msg : List UInt8) : Prop := marker ∉ msg.tail

instance (msg : List UInt8) : Decidable (OneMessage msg) := inferInstanceAs (Decidable (_ ∉ _))

/-- The state of the framer after a byte. -/
def framed (l : RinexLogger) (b : UInt8) : Bool × List UInt8 :=
  if l.inMsg = false then if b = marker then (true, [b]) else (false, l.msg)
  else if l.msg.length < kMsgBufSize - 1 then
    if Ended (l.msg ++ [b]) then (false, []) else (true, l.msg ++ [b])
  else (false, [])

theorem ended_concat (msg : List UInt8) (b : UInt8) :
    Ended (msg ++ [b]) ↔ b = lf ∧ 12 < (msg ++ [b]).length ∧
      '*'.toUInt8 ∈ ((msg ++ [b]).drop ((msg ++ [b]).length - 12)).take 11 := by
  unfold Ended
  rw [List.getLast?_concat, Option.some_inj]

/-- **A byte of `feed`** is a step of the framer, and `process_message` where a buffer is handed
over. -/
theorem feedByte_eq (c : Clib) (l : RinexLogger) (b : UInt8) :
    feedByte c l b = { ((handed l b).elim l fun msg => processMessage c { l with msg := msg }) with
      inMsg := (framed l b).1, msg := (framed l b).2 } := by
  unfold feedByte framed handed
  by_cases hin : l.inMsg = true
  · simp only [hin, Bool.not_true, Bool.false_eq_true, if_false, true_and, Bool.true_eq_false]
    by_cases hroom : l.msg.length < kMsgBufSize - 1
    · simp only [hroom, if_true, true_and]
      by_cases hend : Ended (l.msg ++ [b])
      · simp only [hend, if_true, true_and, if_pos ((ended_concat l.msg b).mp hend)]
        by_cases hrangea : Rangea (l.msg ++ [b])
        · have htake : (l.msg ++ [b]).take 8 = ascii "#RANGEA," := hrangea
          simp only [htake, hrangea, if_true, Option.elim_some]
        · have htake : ¬ (l.msg ++ [b]).take 8 = ascii "#RANGEA," := hrangea
          simp only [htake, hrangea, if_false, Option.elim_none]
      · simp only [hend, if_false, false_and, if_neg fun h => hend ((ended_concat l.msg b).mpr h)]
        rw [← hin]
        rfl
    · simp only [hroom, if_false, false_and]
      rfl
  · rw [Bool.not_eq_true] at hin
    simp only [hin, Bool.not_false, if_true, false_and, if_false, Bool.false_eq_true]
    by_cases hmarker : b = marker
    · have hbyte : b = '#'.toUInt8 := hmarker
      rw [if_pos hbyte, if_pos hmarker]
      rfl
    · have hbyte : ¬ b = '#'.toUInt8 := hmarker
      rw [if_neg hbyte, if_neg hmarker, ← hin]
      rfl

theorem framed_feedByte (c : Clib) (l : RinexLogger) (b : UInt8) :
    (feedByte c l b).inMsg = (framed l b).1 ∧ (feedByte c l b).msg = (framed l b).2 := by
  rw [feedByte_eq]
  exact ⟨rfl, rfl⟩

/-! ### The condition -/

/-- The message under way reaches an end within these bytes, before the buffer is full. -/
def EndsIn (msg data : List UInt8) : Prop :=
  ∃ r, r <+: data ∧ r ≠ [] ∧ (msg ++ r).length < kMsgBufSize ∧ Ended (msg ++ r)

/-- **No marker comes inside a RANGEA message that reaches an end.** -/
def NoneInside (c : Clib) (l : RinexLogger) (data : List UInt8) : Prop :=
  ∀ before after, data = before ++ marker :: after →
    (before.foldl (feedByte c) l).inMsg = true → Rangea (before.foldl (feedByte c) l).msg →
      ¬ EndsIn (before.foldl (feedByte c) l).msg (marker :: after)

theorem NoneInside.tail {c : Clib} {l : RinexLogger} {b : UInt8} {data : List UInt8}
    (h : NoneInside c l (b :: data)) : NoneInside c (feedByte c l b) data :=
  fun before after heq => h (b :: before) after (congrArg (List.cons b) heq)

theorem EndsIn.cons {msg data : List UInt8} {b : UInt8} (h : EndsIn (msg ++ [b]) data) :
    EndsIn msg (b :: data) := by
  obtain ⟨r, hr, -, hlength, hended⟩ := h
  rw [List.append_assoc] at hlength hended
  exact ⟨b :: r, List.cons_prefix_cons.mpr ⟨rfl, hr⟩, List.cons_ne_nil _ _, hlength, hended⟩

theorem rangea_concat {msg : List UInt8} {b : UInt8} (h : Rangea (msg ++ [b])) :
    Rangea msg ∨ msg ++ [b] = ascii "#RANGEA," := by
  by_cases hlength : 8 ≤ msg.length
  · unfold Rangea at h
    rw [List.take_append_of_le_length hlength] at h
    exact Or.inl h
  · have hshort : (msg ++ [b]).length ≤ 8 := by
      rw [List.length_append, List.length_singleton]
      omega
    unfold Rangea at h
    rw [List.take_of_length_le hshort] at h
    exact Or.inr h

theorem Rangea.concat {msg : List UInt8} (h : Rangea msg) (r : List UInt8) : Rangea (msg ++ r) := by
  have hlength : 8 ≤ msg.length := by
    have htake := congrArg List.length h
    rw [List.length_take] at htake
    have : (ascii "#RANGEA,").length = 8 := by decide
    omega
  unfold Rangea
  rw [List.take_append_of_le_length hlength]
  exact h

theorem Rangea.ne_nil {msg : List UInt8} (h : Rangea msg) : msg ≠ [] := by
  rintro rfl
  exact absurd h (by decide)

/-! ### Enough -/

/-- A RANGEA message with a marker inside does not reach an end within the bytes to come. -/
def Doomed (l : RinexLogger) (data : List UInt8) : Prop :=
  l.inMsg = true → Rangea l.msg → marker ∈ l.msg.tail → ¬ EndsIn l.msg data

theorem Doomed.step {c : Clib} {l : RinexLogger} {b : UInt8} {data : List UInt8}
    (h : Doomed l (b :: data)) (hnone : NoneInside c l (b :: data)) :
    Doomed (feedByte c l b) data := by
  intro hin hrangea hmarker hends
  obtain ⟨hin', hmsg'⟩ := framed_feedByte c l b
  rw [hin'] at hin
  rw [hmsg'] at hrangea hmarker hends
  unfold framed at hin hrangea hmarker hends
  split_ifs at hin hrangea hmarker hends with hidle hb hroom hended
  · cases hmarker
  · rw [Bool.not_eq_false] at hidle
    rcases rangea_concat hrangea with hold | hnew
    · rw [List.tail_append_of_ne_nil hold.ne_nil, List.mem_append, List.mem_singleton] at hmarker
      rcases hmarker with hinside | rfl
      · exact h hidle hold hinside hends.cons
      · exact hnone [] data rfl hidle hold hends.cons
    · rw [hnew] at hmarker
      exact absurd hmarker (by decide)

theorem one_message_of_none {c : Clib} {data : List UInt8} {l : RinexLogger} (h : Doomed l data)
    (hnone : NoneInside c l data) : ∀ msg ∈ handedIn c l data, OneMessage msg := by
  induction data generalizing l with
  | nil => exact fun msg hmsg => absurd hmsg List.not_mem_nil
  | cons b data ih =>
    intro msg hmsg
    rcases List.mem_append.mp hmsg with hmsg | hmsg
    · unfold handed at hmsg
      split_ifs at hmsg with hhanded
      · obtain ⟨hin, hroom, hended, hrangea⟩ := hhanded
        obtain rfl := List.mem_singleton.mp hmsg
        have hlf : b = lf := ((ended_concat l.msg b).mp hended).1
        rcases rangea_concat hrangea with hold | hnew
        · intro hmarker
          rw [List.tail_append_of_ne_nil hold.ne_nil, List.mem_append, List.mem_singleton] at hmarker
          rcases hmarker with hinside | hmarker
          · refine h hin hold hinside ⟨[b], ⟨data, rfl⟩, List.cons_ne_nil _ _, ?_, hended⟩
            rw [List.length_append, List.length_singleton]
            omega
          · rw [hlf] at hmarker
            exact absurd hmarker (by decide)
        · rw [hnew]
          exact by decide
      · cases hmsg
    · exact ih (h.step hnone) hnone.tail msg hmsg

/-! ### Necessary -/

/-- **A RANGEA message that reaches an end is handed over**, at its first end. -/
theorem handed_of_endsIn {c : Clib} {data : List UInt8} {l : RinexLogger} (hin : l.inMsg = true)
    (hrangea : Rangea l.msg) (h : EndsIn l.msg data) :
    ∃ r, r <+: data ∧ r ≠ [] ∧ l.msg ++ r ∈ handedIn c l data := by
  induction data generalizing l with
  | nil =>
    obtain ⟨r, hr, hne, -⟩ := h
    exact absurd (List.prefix_nil.mp hr) hne
  | cons b data ih =>
    obtain ⟨r, hr, hne, hlength, hended⟩ := h
    obtain ⟨x, r, rfl⟩ := List.exists_cons_of_ne_nil hne
    obtain ⟨rfl, hrest⟩ := List.cons_prefix_cons.mp hr
    rw [List.length_append, List.length_cons] at hlength
    have hroom : l.msg.length < kMsgBufSize - 1 := by omega
    by_cases hfirst : Ended (l.msg ++ [x])
    · refine ⟨[x], ⟨data, rfl⟩, List.cons_ne_nil _ _, List.mem_append_left _ ?_⟩
      unfold handed
      rw [if_pos ⟨hin, hroom, hfirst, hrangea.concat [x]⟩]
      exact List.mem_singleton_self _
    · obtain ⟨hin', hmsg'⟩ := framed_feedByte c l x
      have hframed : framed l x = (true, l.msg ++ [x]) := by
        unfold framed
        rw [if_neg (by rw [hin]; exact Bool.noConfusion), if_pos hroom, if_neg hfirst]
      rw [hframed] at hin' hmsg'
      have hne' : r ≠ [] := by
        rintro rfl
        exact hfirst hended
      have hends : EndsIn (feedByte c l x).msg data := by
        refine ⟨r, hrest, hne', ?_, ?_⟩
        · rw [hmsg', List.append_assoc, List.length_append]
          exact hlength
        · rw [hmsg', List.append_assoc]
          exact hended
      obtain ⟨r', hr', -, hmem⟩ := ih hin' (hmsg'.symm ▸ hrangea.concat [x]) hends
      rw [hmsg', List.append_assoc] at hmem
      exact ⟨x :: r', List.cons_prefix_cons.mpr ⟨rfl, hr'⟩, List.cons_ne_nil _ _,
        List.mem_append_right _ hmem⟩

theorem handedIn_append (c : Clib) (before after : List UInt8) (l : RinexLogger) :
    handedIn c l (before ++ after) =
      handedIn c l before ++ handedIn c (before.foldl (feedByte c) l) after := by
  induction before generalizing l with
  | nil => rfl
  | cons b before ih =>
    show _ ++ handedIn c (feedByte c l b) (before ++ after) = _
    rw [ih, ← List.append_assoc]
    rfl

theorem none_of_one_message {c : Clib} {data : List UInt8} {l : RinexLogger}
    (h : ∀ msg ∈ handedIn c l data, OneMessage msg) : NoneInside c l data := by
  rintro before after rfl hin hrangea hends
  obtain ⟨r, hr, hne, hmem⟩ := handed_of_endsIn (c := c) hin hrangea hends
  obtain ⟨x, r, rfl⟩ := List.exists_cons_of_ne_nil hne
  obtain ⟨rfl, -⟩ := List.cons_prefix_cons.mp hr
  rw [handedIn_append] at h
  refine h _ (List.mem_append_right _ hmem) ?_
  rw [List.tail_append_of_ne_nil hrangea.ne_nil]
  exact List.mem_append_right _ List.mem_cons_self

/-! ### Every stream -/

theorem handedBy_eq (c : Clib) (feeds : List (List UInt8)) {l : RinexLogger} (h : l.active = true) :
    handedBy c l feeds = handedIn c l feeds.flatten := by
  induction feeds generalizing l with
  | nil => rfl
  | cons data feeds ih =>
    have hfeed : l.feed c data = data.foldl (feedByte c) l := by
      unfold feed
      rw [h, Bool.not_true, if_neg Bool.false_ne_true]
    rw [handedBy, if_pos h, ih ((active_feed c data l).trans h), hfeed, List.flatten_cons,
      handedIn_append]

/-- **One message each, exactly if no marker comes inside a RANGEA message that reaches an end.** -/
theorem one_message_iff (c : Clib) {l : RinexLogger} (hactive : l.active = true)
    (hidle : l.inMsg = false) (feeds : List (List UInt8)) :
    (∀ msg ∈ handedBy c l feeds, OneMessage msg) ↔ NoneInside c l feeds.flatten := by
  rw [handedBy_eq c feeds hactive]
  refine ⟨none_of_one_message, one_message_of_none fun hin => ?_⟩
  rw [hidle] at hin
  cases hin

/-- A logger at the start of a session. -/
def started : RinexLogger := { active := true, opens := fun _ => true }

/-- A message whose tail is lost, and a whole one. -/
def lostTail : List (List UInt8) :=
  [ascii "#RANGEA,COM3,0,98.0,FINE,2190,30;1,5,0,2.1e7",
    ascii "#RANGEA,COM3,0,98.0,FINE,2190,60;1,7,0,2.2e7,0,0,0,0,0,0,00000000*00000000\r\n"]

theorem one_message_iff_lostTail :
    (∀ msg ∈ handedBy Sessions.sampleClib started lostTail, OneMessage msg) ↔
      NoneInside Sessions.sampleClib started lostTail.flatten :=
  one_message_iff _ rfl rfl _

/-- **Two messages in one buffer.** -/
theorem two_messages : lostTail.flatten ∈ handedBy Sessions.sampleClib started lostTail ∧
    ¬ OneMessage lostTail.flatten := by
  rw [handedBy_eq _ _ rfl]
  decide +kernel

end GpsBase.Rinex.Splices
