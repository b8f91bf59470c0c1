import GpsBase.Console.Log
import GpsBase.Web.NextPage

/-! # The log page

`logs_data_handler`, and the script of the page that shows the console. The page keeps a cursor: it asks for
what came behind it, puts that behind its text and keeps the last 16384 characters. Lines are written at any
time, also while a request or its reply is on its way, and any request can fail.

In every run the page shows the end of the console as it was at its cursor (`page_shows_log`): nothing is
left out of it, and nothing stands in it twice. -/

namespace GpsBase.Web.LogPage

open GpsBase.Lib.CText GpsBase.Lib.Machine GpsBase.Lib.Search GpsBase.Web.Forms GpsBase.Web.NextPage
open GpsBase.Console.Log (LogBuffer Logged kCapacity oldestOf snapshotSince_eq)

/-! ### The handler -/

/-- `strtoull` to base 10; of a number that is too large, the greatest there is. -/
def strtoull (s : List UInt8) : UInt64 :=
  let (neg, rest) := signOf (s.dropWhile isSpace)
  let n := decimalValue (rest.takeWhile isDigit)
  if 2 ^ 64 ≤ n then UInt64.ofNat (2 ^ 64 - 1)
  else if neg then 0 - UInt64.ofNat n else UInt64.ofNat n

/-- What the browser is sent: `X-Log-Cursor`, `X-Log-Truncated`, the chunks, and whether the last one was
ended. -/
structure Reply where
  cursor : List UInt8
  truncated : List UInt8
  chunks : List (List UInt8)
  complete : Bool

def kLogChunk : ℕ := 1024

/-- The loop of `logs_data_handler` from call `k` of `httpd_resp_send_chunk` on; `sends` says which calls
succeed. There are `fuel` rounds. -/
def sendChunks (sends : ℕ → Bool) : ℕ → ℕ → List UInt8 → List (List UInt8) × Bool
  | 0, _, _ => ([], false)
  | fuel + 1, k, text =>
    if text = [] then ([], sends k)
    else if sends k then
      let (chunks, complete) := sendChunks sends fuel (k + 1) (text.drop kLogChunk)
      (text.take kLogChunk :: chunks, complete)
    else ([], false)

def logsDataHandler (log : LogBuffer) (query : List UInt8) (sends : ℕ → Bool) : Reply :=
  let param := queryParam query (ascii "since")
  let since := if param = [] then 0 else strtoull param
  let logs := log.snapshotSince since
  let (chunks, complete) := sendChunks sends (logs.text.length + 1) 0 logs.text
  { cursor := decimal logs.next.toNat
    truncated := if logs.truncated then ascii "1" else ascii "0"
    chunks := chunks
    complete := complete }

/-! ### The page -/

/-- The text of the page before the first reply: `loading` and three dots in one. -/
def loading : List UInt16 := (ascii "loading").map UInt8.toUInt16 ++ [8230]

/-- How much of its text the page keeps. -/
def kShown : ℕ := 16384

/-- `slice(-n)`. -/
def lastOf (n : ℕ) (text : List UInt16) : List UInt16 := text.drop (text.length - n)

/-- What `load` waits for; it is busy unless there is nothing. -/
inductive Fetch
  | none
  | requested (full : Bool) (query : List UInt8)
  | answered (full : Bool) (reply : Reply)

/-- `pre.textContent`, `cursor` and `busy`. -/
structure Page where
  textContent : List UInt16 := loading
  cursor : ℕ := 0
  fetch : Fetch := .none

/-- The query of the request of `load`. -/
def requestQuery (full : Bool) (cursor : ℕ) : List UInt8 :=
  if full || cursor = 0 then [] else ascii "since=" ++ decimal cursor

/-- What `load` does with a reply that came as a whole. The browser decodes the text; a cursor below
`2 ^ 53` is a number of its own. -/
def Page.receive (decode : List UInt8 → List UInt16) (p : Page) (full : Bool) (r : Reply) : Page :=
  let text := decode r.chunks.flatten
  let next := decimalValue r.cursor
  { textContent :=
      if full || p.cursor = 0 || r.truncated = ascii "1" then text
      else if text.length ≠ 0 then
        let joined := p.textContent ++ text
        if kShown < joined.length then lastOf kShown joined else joined
      else p.textContent
    cursor := if next ≠ 0 then next else p.cursor
    fetch := .none }

/-- The console with its history, and a page. -/
structure World where
  log : LogBuffer
  history : List UInt8 := []
  page : Page := {}

/-- Something is logged; the page begins to load; the server answers; the reply arrives; the request or
the reply is lost. Timers, the buttons and the visibility of the page only decide when it loads; a page
whose session is over goes to the login page, and its run ends. -/
inductive Event
  | append (data : List UInt8)
  | load (full : Bool)
  | serve (sends : ℕ → Bool)
  | arrive
  | fail

def step (decode : List UInt8 → List UInt16) (w : World) : Event → Option World
  | .append data => some { w with log := w.log.append data, history := w.history ++ data }
  | .load full =>
    match w.page.fetch with
    | .none => some { w with
        page := { w.page with fetch := .requested full (requestQuery full w.page.cursor) } }
    | _ => some w
  | .serve sends =>
    match w.page.fetch with
    | .requested full query => some { w with
        page := { w.page with fetch := .answered full (logsDataHandler w.log query sends) } }
    | _ => none
  | .arrive =>
    match w.page.fetch with
    | .answered full reply =>
      if reply.complete then some { w with page := w.page.receive decode full reply } else none
    | _ => none
  | .fail =>
    match w.page.fetch with
    | .none => none
    | _ => some { w with page := { w.page with fetch := .none } }

/-- A page that was just opened, with an empty console. -/
def opened : World := { log := Console.Log.empty }

/-! ### Answers -/

/-- All of a text was sent if the last chunk was ended. -/
theorem flatten_sendChunks (sends : ℕ → Bool) : ∀ (fuel k : ℕ) (text : List UInt8),
    (sendChunks sends fuel k text).2 = true → (sendChunks sends fuel k text).1.flatten = text
  | 0, _, _, h => absurd h Bool.false_ne_true
  | fuel + 1, k, text, h => by
    have ih := flatten_sendChunks sends fuel (k + 1) (text.drop kLogChunk)
    simp only [sendChunks] at h ⊢
    split_ifs at h ⊢ with hempty hsend
    · simp [hempty]
    · simp [ih h]

theorem sendChunks_complete {sends : ℕ → Bool} (hsends : ∀ k, sends k = true) : ∀ (fuel k : ℕ)
    (text : List UInt8), text.length < fuel → (sendChunks sends fuel k text).2 = true
  | 0, _, _, h => absurd h (Nat.not_lt_zero _)
  | fuel + 1, k, text, h => by
    have ih := sendChunks_complete hsends fuel (k + 1) (text.drop kLogChunk)
    simp only [sendChunks]
    split_ifs with hempty hsend
    · exact hsends k
    · have hpos : 0 < text.length := List.length_pos_iff.mpr hempty
      refine ih ?_
      simp only [List.length_drop, kLogChunk]
      omega
    · exact absurd (hsends k) hsend

theorem queryParam_alone (key : List UInt8) {text : List UInt8} (htext : 38 ∉ text) :
    queryParam (key ++ [61] ++ text) key = urlDecode text := by
  have hfound : findText (key ++ [61]) (key ++ [61] ++ text ++ [0]) = some 0 := by
    refine findText_eq_some_iff.mpr ⟨Nat.zero_le _, ?_, fun j hj => absurd hj (Nat.not_lt_zero j)⟩
    rw [List.drop_zero, List.append_assoc]
    exact List.prefix_append _ _
  unfold queryParam
  rw [if_neg (by simp)]
  dsimp only
  rw [hfound]
  dsimp only
  rw [Nat.zero_add, List.drop_left, takeWhile_eq_self htext]

theorem not_mem_decimal {b : UInt8} (hb : isDigit b = false) (n : ℕ) : b ∉ decimal n := fun hmem =>
  absurd ((isDigit_decimal n b hmem).symm.trans hb) (by simp)

theorem decimal_ne_nil (n : ℕ) : decimal n ≠ [] := by
  simp [decimal, Nat.toDigits_ne_nil]

theorem strtoull_decimal {n : ℕ} (hn : n < 2 ^ 64) : strtoull (decimal n) = UInt64.ofNat n := by
  obtain ⟨b, s, hs⟩ := List.exists_cons_of_ne_nil (decimal_ne_nil n)
  have hdigits := isDigit_decimal n
  have hb : isDigit b = true := hdigits b (by simp [hs])
  have hspace : (decimal n).dropWhile isSpace = decimal n := by
    rw [hs, List.dropWhile_cons_of_neg (by simp [isSpace_digit hb])]
  have hsign : signOf (decimal n) = (false, decimal n) := by
    rw [hs, signOf_digit hb]
  unfold strtoull
  rw [hspace, hsign]
  dsimp only
  rw [List.takeWhile_eq_self_iff.mpr hdigits, decimalValue_decimal, if_neg (by omega)]
  simp

theorem queryParam_since (cursor : ℕ) :
    queryParam (ascii "since=" ++ decimal cursor) (ascii "since") = decimal cursor := by
  rw [show ascii "since=" = ascii "since" ++ [61] by decide,
    queryParam_alone _ (not_mem_decimal (by decide) cursor), urlDecode_eq_self_iff]
  exact ⟨not_mem_decimal (by decide) cursor, fun hmem => not_mem_decimal (by decide) cursor
    (List.dropLast_subset _ (List.dropLast_subset _ hmem))⟩

/-- The cursor that `load` asks with. -/
def sinceOf (full : Bool) (cursor : ℕ) : ℕ := if full || cursor = 0 then 0 else cursor

/-- A reply to a request with a cursor, of the console after `h`. -/
structure Answer (h : List UInt8) (since : ℕ) (r : Reply) : Prop where
  cursor : r.cursor = decimal h.length
  truncated : r.truncated = ascii "1" ↔ 0 < since ∧ since < oldestOf h
  text : r.complete = true → r.chunks.flatten = h.drop (max since (oldestOf h))

theorem sinceOf_le {full : Bool} {cursor n : ℕ} (h : cursor ≤ n) : sinceOf full cursor ≤ n := by
  unfold sinceOf
  split_ifs <;> omega

theorem since_requestQuery (full : Bool) {cursor : ℕ} (hcursor : cursor < 2 ^ 64) :
    (if queryParam (requestQuery full cursor) (ascii "since") = [] then 0
      else strtoull (queryParam (requestQuery full cursor) (ascii "since"))) =
        UInt64.ofNat (sinceOf full cursor) := by
  unfold requestQuery sinceOf
  by_cases hfirst : (full || decide (cursor = 0)) = true
  · rw [if_pos hfirst, if_pos hfirst]
    rfl
  · rw [if_neg hfirst, if_neg hfirst, queryParam_since, if_neg (decimal_ne_nil cursor)]
    exact strtoull_decimal hcursor

theorem answer_logsDataHandler {b : LogBuffer} {h : List UInt8} (hb : Logged b h) (hlen : h.length < 2 ^ 64)
    {cursor : ℕ} (hcursor : cursor ≤ h.length) (full : Bool) (sends : ℕ → Bool) :
    Answer h (sinceOf full cursor) (logsDataHandler b (requestQuery full cursor) sends) := by
  have hle : sinceOf full cursor ≤ h.length := sinceOf_le hcursor
  have hto : (UInt64.ofNat (sinceOf full cursor)).toNat = sinceOf full cursor :=
    UInt64.toNat_ofNat_of_lt' (hle.trans_lt hlen)
  have hsnap := snapshotSince_eq hb hlen (UInt64.ofNat (sinceOf full cursor))
  rw [hto, min_eq_left hle] at hsnap
  unfold logsDataHandler
  dsimp only
  rw [since_requestQuery full (by omega), hsnap]
  refine ⟨?_, ?_, flatten_sendChunks _ _ _ _⟩
  · show decimal (UInt64.ofNat h.length).toNat = decimal h.length
    rw [UInt64.toNat_ofNat_of_lt' hlen]
  · show (if decide (0 < sinceOf full cursor ∧ sinceOf full cursor < oldestOf h) = true then ascii "1"
      else ascii "0") = ascii "1" ↔ _
    split_ifs with hearly
    · exact iff_of_true rfl (of_decide_eq_true hearly)
    · exact iff_of_false (by decide) fun h => hearly (decide_eq_true h)

/-! ### What the page shows -/

/-- A decoder gives no more characters than there are bytes, and ASCII as it is. -/
structure Decodes (decode : List UInt8 → List UInt16) : Prop where
  short : ∀ s, (decode s).length ≤ s.length
  plain : ∀ s, (∀ b ∈ s, b < 128) → decode s = s.map UInt8.toUInt16

/-- A text shows the end of `h`: the last characters of parts of it, one behind the other, that were decoded
each by itself and go back at least as far as the page keeps its text. -/
def Shows (decode : List UInt8 → List UInt16) (h : List UInt8) (text : List UInt16) : Prop :=
  ∃ parts : List (List UInt8), parts.flatten <:+ h ∧ min h.length kCapacity ≤ parts.flatten.length ∧
    text = lastOf kShown (parts.map decode).flatten

theorem lastOf_of_length_le {n : ℕ} {text : List UInt16} (h : text.length ≤ n) : lastOf n text = text := by
  simp [lastOf, Nat.sub_eq_zero_of_le h]

theorem length_lastOf_le (n : ℕ) (text : List UInt16) : (lastOf n text).length ≤ n := by
  simp only [lastOf, List.length_drop]
  omega

theorem lastOf_append (n : ℕ) (a b : List UInt16) : lastOf n (lastOf n a ++ b) = lastOf n (a ++ b) := by
  unfold lastOf
  rw [List.length_append, List.length_append, List.length_drop, List.drop_append, List.drop_append,
    List.drop_drop, List.length_drop]
  congr 2 <;> omega

theorem shows_all {decode : List UInt8 → List UInt16} (hdecode : Decodes decode) (h : List UInt8) :
    Shows decode h (decode (h.drop (oldestOf h))) := by
  have hlength : (h.drop (oldestOf h)).length = min h.length kCapacity := by
    rw [List.length_drop]
    unfold oldestOf
    omega
  refine ⟨[h.drop (oldestOf h)], by simp [List.drop_suffix], by simp [hlength], ?_⟩
  rw [List.map_singleton, List.flatten_singleton, lastOf_of_length_le]
  refine (hdecode.short _).trans ?_
  rw [hlength]
  exact min_le_right _ _

theorem Shows.more {decode : List UInt8 → List UInt16} {h : List UInt8} {cursor : ℕ} {text : List UInt16}
    (hcursor : cursor ≤ h.length) (hs : Shows decode (h.take cursor) text) :
    Shows decode h (lastOf kShown (text ++ decode (h.drop cursor))) := by
  obtain ⟨parts, hsuffix, hlong, htext⟩ := hs
  refine ⟨parts ++ [h.drop cursor], ?_, ?_, ?_⟩
  · obtain ⟨front, hfront⟩ := hsuffix
    refine ⟨front, ?_⟩
    rw [List.flatten_append, List.flatten_singleton, ← List.append_assoc, hfront, List.take_append_drop]
  · rw [List.length_take] at hlong
    rw [List.flatten_append, List.flatten_singleton, List.length_append, List.length_drop]
    omega
  · rw [htext, lastOf_append, List.map_append, List.flatten_append, List.map_singleton, List.flatten_singleton]

theorem Shows.length_le {decode : List UInt8 → List UInt16} {h : List UInt8} {text : List UInt16}
    (hs : Shows decode h text) : text.length ≤ kShown := by
  obtain ⟨parts, -, -, htext⟩ := hs
  rw [htext]
  exact length_lastOf_le kShown _

/-- The end of a list is the end of what ends it and is long enough. -/
theorem drop_of_long {a b : List UInt8} {n : ℕ} (h : min (a ++ b).length n ≤ b.length) :
    b.drop (b.length - n) = (a ++ b).drop ((a ++ b).length - min (a ++ b).length n) := by
  rw [List.length_append] at h ⊢
  rw [List.drop_append, List.drop_of_length_le (l := a) (by omega), List.nil_append]
  congr 1
  omega

theorem Shows.plain {decode : List UInt8 → List UInt16} (hdecode : Decodes decode) {h : List UInt8}
    {text : List UInt16} (hs : Shows decode h text) (hplain : ∀ b ∈ h, b < 128) :
    text = (h.drop (oldestOf h)).map UInt8.toUInt16 := by
  obtain ⟨parts, ⟨front, hfront⟩, hlong, htext⟩ := hs
  subst hfront
  have hparts : (parts.map decode).flatten = parts.flatten.map UInt8.toUInt16 := by
    rw [List.map_flatten]
    congr 1
    refine List.map_congr_left fun part hpart => hdecode.plain part fun b hb => hplain b ?_
    exact List.mem_append_right _ (List.mem_flatten_of_mem hpart hb)
  rw [htext, hparts, lastOf, List.length_map, ← List.map_drop]
  exact congrArg (List.map UInt8.toUInt16) (drop_of_long hlong)

theorem shows_receive {decode : List UInt8 → List UInt16} (hdecode : Decodes decode) {h : List UInt8}
    {p : Page} (hcursor : p.cursor ≤ h.length)
    (hs : p.cursor ≠ 0 → Shows decode (h.take p.cursor) p.textContent) {full : Bool} {r : Reply}
    (hr : Answer h (sinceOf full p.cursor) r) (hcomplete : r.complete = true) :
    (p.receive decode full r).cursor = h.length ∧ Shows decode h (p.receive decode full r).textContent := by
  have htext := hr.text hcomplete
  unfold Page.receive
  dsimp only
  rw [htext, hr.cursor, decimalValue_decimal]
  refine ⟨by split_ifs <;> omega, ?_⟩
  by_cases hreplace : (full || decide (p.cursor = 0) || decide (r.truncated = ascii "1")) = true
  · -- the text is replaced by all that the console holds
    rw [if_pos hreplace]
    have hmax : max (sinceOf full p.cursor) (oldestOf h) = oldestOf h := by
      rw [Bool.or_eq_true, decide_eq_true_eq, hr.truncated] at hreplace
      rcases hreplace with hfirst | ⟨-, hearly⟩
      · simp [sinceOf, hfirst]
      · exact max_eq_right hearly.le
    rw [hmax]
    exact shows_all hdecode h
  · rw [if_neg hreplace]
    simp only [Bool.or_eq_true, decide_eq_true_eq, not_or, hr.truncated] at hreplace
    obtain ⟨⟨hfull, hne⟩, hlate⟩ := hreplace
    have hsince : sinceOf full p.cursor = p.cursor := by simp [sinceOf, hfull, hne]
    rw [hsince] at hlate ⊢
    rw [max_eq_left (by omega)]
    have hmore := (hs hne).more hcursor
    have hold := (hs hne).length_le
    split_ifs with hsome hlong
    · exact hmore
    · rwa [lastOf_of_length_le (by omega)] at hmore
    · have hnone : decode (h.drop p.cursor) = [] := by simpa using hsome
      rwa [hnone, List.append_nil, lastOf_of_length_le hold] at hmore

/-! ### Runs -/

/-- A request or a reply on its way. -/
def Flying (history : List UInt8) (cursor : ℕ) : Fetch → Prop
  | .none => True
  | .requested full query => query = requestQuery full cursor
  | .answered full reply => ∃ n, cursor ≤ n ∧ n ≤ history.length ∧
      Answer (history.take n) (sinceOf full cursor) reply

structure Showing (decode : List UInt8 → List UInt16) (w : World) : Prop where
  logged : Logged w.log w.history
  cursor_le : w.page.cursor ≤ w.history.length
  first : w.page.cursor = 0 → w.page.textContent = loading ∨ w.page.textContent = []
  shows : w.page.cursor ≠ 0 → Shows decode (w.history.take w.page.cursor) w.page.textContent
  fetch : Flying w.history w.page.cursor w.page.fetch

theorem showing_opened (decode : List UInt8 → List UInt16) : Showing decode opened where
  logged := Console.Log.logged_empty
  cursor_le := Nat.zero_le _
  first := fun _ => Or.inl rfl
  shows := fun h => absurd rfl h
  fetch := trivial

theorem Flying.append {history : List UInt8} {cursor : ℕ} : ∀ {f : Fetch}, Flying history cursor f →
    ∀ data, Flying (history ++ data) cursor f
  | .none, _, _ => trivial
  | .requested _ _, h, _ => h
  | .answered _ _, ⟨n, hcursor, hn, h⟩, data => by
    refine ⟨n, hcursor, hn.trans (by simp), ?_⟩
    rwa [List.take_append_of_le_length hn]

variable {decode : List UInt8 → List UInt16}

theorem Showing.append {w : World} (h : Showing decode w) (data : List UInt8) :
    Showing decode { w with log := w.log.append data, history := w.history ++ data } where
  logged := h.logged.append data
  cursor_le := h.cursor_le.trans (by simp)
  first := h.first
  shows := fun hne => by
    rw [List.take_append_of_le_length h.cursor_le]
    exact h.shows hne
  fetch := h.fetch.append data

theorem Showing.setFetch {w : World} (h : Showing decode w) {f : Fetch} (hf : Flying w.history w.page.cursor f) :
    Showing decode { w with page := { w.page with fetch := f } } :=
  ⟨h.logged, h.cursor_le, h.first, h.shows, hf⟩

theorem Showing.receive (hdecode : Decodes decode) {w : World} (h : Showing decode w) {full : Bool}
    {reply : Reply} (hf : Flying w.history w.page.cursor (.answered full reply))
    (hcomplete : reply.complete = true) :
    Showing decode { w with page := w.page.receive decode full reply } := by
  obtain ⟨n, hcursor, hn, hr⟩ := hf
  have hlength : (w.history.take n).length = n := by simp [hn]
  have htake : (w.history.take n).take w.page.cursor = w.history.take w.page.cursor := by
    rw [List.take_take, min_eq_left hcursor]
  obtain ⟨hto, hshows⟩ := shows_receive hdecode (by rw [hlength]; exact hcursor)
    (fun hne => by rw [htake]; exact h.shows hne) hr hcomplete
  rw [hlength] at hto
  refine ⟨h.logged, hto.le.trans hn, fun hzero => ?_, fun _ => ?_, trivial⟩
  · rw [hto] at hzero
    obtain ⟨parts, hsuffix, -, htext⟩ := hshows
    rw [hzero, List.take_zero, List.suffix_nil, List.flatten_eq_nil_iff] at hsuffix
    have hnil : (parts.map decode).flatten = [] := by
      refine List.flatten_eq_nil_iff.mpr fun part hpart => ?_
      obtain ⟨s, hs, rfl⟩ := List.mem_map.mp hpart
      refine List.length_eq_zero_iff.mp (Nat.le_zero.mp ((hdecode.short s).trans ?_))
      rw [hsuffix s hs, List.length_nil]
    rw [hnil] at htext
    exact Or.inr htext
  · show Shows decode (w.history.take (w.page.receive decode full reply).cursor) _
    rw [hto]
    exact hshows

theorem Showing.step (hdecode : Decodes decode) {w w' : World} {e : Event} (h : Showing decode w)
    (hlen : w.history.length < 2 ^ 53) (hstep : step decode w e = some w') : Showing decode w' := by
  have hfetch := h.fetch
  unfold LogPage.step at hstep
  split at hstep
  · obtain rfl := Option.some.inj hstep
    exact h.append _
  · split at hstep
    · obtain rfl := Option.some.inj hstep
      exact h.setFetch rfl
    · obtain rfl := Option.some.inj hstep
      exact h
  · split at hstep
    · next full query heq =>
      obtain rfl := Option.some.inj hstep
      rw [heq] at hfetch
      refine h.setFetch ⟨w.history.length, h.cursor_le, le_refl _, ?_⟩
      rw [List.take_length, show query = requestQuery full w.page.cursor from hfetch]
      exact answer_logsDataHandler h.logged (by omega) h.cursor_le full _
    · cases hstep
  · split at hstep
    · next full reply heq =>
      rw [heq] at hfetch
      split_ifs at hstep with hcomplete
      obtain rfl := Option.some.inj hstep
      exact h.receive hdecode hfetch hcomplete
    · cases hstep
  · split at hstep
    · cases hstep
    · obtain rfl := Option.some.inj hstep
      exact h.setFetch trivial

theorem length_history_step {w w' : World} {e : Event} (hstep : step decode w e = some w') :
    w.history.length ≤ w'.history.length := by
  unfold LogPage.step at hstep
  split at hstep
  · obtain rfl := Option.some.inj hstep
    simp
  all_goals
    split at hstep
    all_goals simp only [Option.ite_none_right_eq_some, Option.some.injEq, reduceCtorEq] at hstep
    all_goals first
      | exact (congrArg (fun w => w.history.length) hstep).le
      | exact (congrArg (fun w => w.history.length) hstep.2).le

/-- **In every run**, as long as a number of the page counts the bytes. -/
theorem showing_run (hdecode : Decodes decode) {events : List Event} {w : World}
    (hrun : run (step decode) opened events = some w) (hlen : w.history.length < 2 ^ 53) :
    Showing decode w := by
  refine run_invariant (I := fun w => w.history.length < 2 ^ 53 → Showing decode w)
    (fun w e w' hw hstep hlen' => ?_) (fun _ => showing_opened decode) hrun hlen
  have hle := length_history_step hstep
  exact (hw (by omega)).step hdecode (by omega) hstep

/-- A load that nothing disturbs brings the page up to the end of the console. -/
theorem load_up_to_date (hdecode : Decodes decode) {w : World} (h : Showing decode w)
    (hlen : w.history.length < 2 ^ 53) (hidle : w.page.fetch = .none) (full : Bool) :
    ∃ w', run (step decode) w [.load full, .serve fun _ => true, .arrive] = some w' ∧
      w'.history = w.history ∧ w'.page.cursor = w.history.length := by
  set reply := logsDataHandler w.log (requestQuery full w.page.cursor) fun _ => true with hreply
  have hcomplete : reply.complete = true := sendChunks_complete (fun _ => rfl) _ _ _ (Nat.lt_succ_self _)
  have hanswer := answer_logsDataHandler h.logged (by omega) h.cursor_le full fun _ => true
  refine ⟨{ w with page := w.page.receive decode full reply }, ?_, rfl,
    (shows_receive hdecode h.cursor_le h.shows hanswer hcomplete).1⟩
  simp only [run, step, hidle, Option.bind_some, ← hreply, hcomplete, if_true]
  rfl

/-- **The log page shows the end of the console.** In every run of the console and the page, whatever is
logged while a request or a reply is on its way and whatever is lost: the page shows the end of what had been
logged at its cursor, each byte once and none left out, as far back as the console keeps it; and when it
waits for nothing, a load that succeeds takes its cursor to the end. -/
theorem page_shows_log (hdecode : Decodes decode) {events : List Event} {w : World}
    (hrun : run (step decode) opened events = some w) (hlen : w.history.length < 2 ^ 53) :
    let logged := w.history.take w.page.cursor
    logged.length = w.page.cursor ∧
      (logged = [] → w.page.textContent = loading ∨ w.page.textContent = []) ∧
      (logged ≠ [] → Shows decode logged w.page.textContent ∧
        ((∀ b ∈ logged, b < 128) →
          w.page.textContent = (logged.drop (oldestOf logged)).map UInt8.toUInt16)) ∧
      (w.page.fetch = .none → ∀ full, ∃ w',
        run (step decode) w [.load full, .serve fun _ => true, .arrive] = some w' ∧
          w'.history = w.history ∧ w'.page.cursor = w.history.length) := by
  have h := showing_run hdecode hrun hlen
  have hlength : (w.history.take w.page.cursor).length = w.page.cursor := by simp [h.cursor_le]
  have hnil : w.history.take w.page.cursor = [] ↔ w.page.cursor = 0 := by
    rw [← List.length_eq_zero_iff, hlength]
  refine ⟨hlength, fun h0 => h.first (hnil.mp h0), fun hne => ?_, fun hidle full =>
    load_up_to_date hdecode h hlen hidle full⟩
  have hshows := h.shows (mt hnil.mpr hne)
  exact ⟨hshows, hshows.plain hdecode⟩

/-- Two loads, with a line logged while the first reply is on its way. -/
def sampleLoads : List Event :=
  [.append (ascii "boot"), .load true, .serve fun _ => true, .append (ascii "!"), .arrive, .load false,
    .serve fun _ => true, .arrive]

/-- What a browser makes of ASCII. -/
def plainText (s : List UInt8) : List UInt16 := s.map UInt8.toUInt16

theorem decodes_plainText : Decodes plainText :=
  ⟨fun _ => (List.length_map _).le, fun _ _ => rfl⟩

theorem page_shows_log_sample :
    ∃ w, run (step plainText) opened sampleLoads = some w ∧ w.page.cursor = 5 ∧
      w.page.textContent = (ascii "boot!").map UInt8.toUInt16 ∧
      let logged := w.history.take w.page.cursor
      logged.length = w.page.cursor ∧
        (logged = [] → w.page.textContent = loading ∨ w.page.textContent = []) ∧
        (logged ≠ [] → Shows plainText logged w.page.textContent ∧
          ((∀ b ∈ logged, b < 128) →
            w.page.textContent = (logged.drop (oldestOf logged)).map UInt8.toUInt16)) ∧
        (w.page.fetch = .none → ∀ full, ∃ w',
          run (step plainText) w [.load full, .serve fun _ => true, .arrive] = some w' ∧
            w'.history = w.history ∧ w'.page.cursor = w.history.length) := by
  have hrun : ((run (step plainText) opened sampleLoads).map fun w =>
      (w.page.cursor, w.page.textContent, w.history.length)) =
        some (5, (ascii "boot!").map UInt8.toUInt16, 5) := by decide +kernel
  obtain ⟨w, hw, hfacts⟩ := Option.map_eq_some_iff.mp hrun
  obtain ⟨hcursor, hfacts⟩ := Prod.ext_iff.mp hfacts
  obtain ⟨htext, hlength⟩ := Prod.ext_iff.mp hfacts
  have hlen : w.history.length < 2 ^ 53 := lt_of_eq_of_lt hlength (by decide)
  exact ⟨w, hw, hcursor, htext, page_shows_log decodes_plainText hw hlen⟩

end GpsBase.Web.LogPage
