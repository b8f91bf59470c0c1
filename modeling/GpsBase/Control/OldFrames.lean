import GpsBase.Control.RateGate
import GpsBase.Control.Um980
import GpsBase.Lib.Machine
import GpsBase.Rtcm.Framing

/-! # Frames of the old position

The station, the receiver and the FIFO of COM3 between them. An operation of the station is its
transition and a script of what it then does at the two UARTs: flushes, and the commands of the receiver
one at a time. Between any two of these the receiver carries out a line it was sent, or sends bytes while
a log is on; the station reads the FIFO when no script is left.

A byte of the FIFO carries how many `UNLOGALL COM3` the receiver had carried out when it sent it, and
`due` counts those asked for. The bytes in the parser carry the same (`follow`), so that a frame is
published with its bytes' counts. All frames are of the time after the last `UNLOGALL COM3` if no byte
`0xD3` arrives between the last flush of an operation and the `UNLOGALL COM3` it is followed by
(`Quiet`, `no_old_frame`); the flush comes first in every operation, and so nothing else keeps an old
frame out (`old_frame`). -/

namespace GpsBase.Control.OldFrames

open GpsBase.Lib GpsBase.Lib.Binary64
open GpsBase.Mailbox.Slots GpsBase.Rtcm.Framing
open GpsBase.Rtcm.Parser GpsBase.Rtcm.Parser.RtcmParser
open GpsBase.Control.Modes GpsBase.Control.Gating GpsBase.Control.RateGate
open GpsBase.Control.Um980 (Command Receiver Request)

/-! ### Bytes with their time -/

/-- A byte, and how many `UNLOGALL COM3` the receiver had carried out when it sent it. -/
abbrev Byte := UInt8 × ℕ

/-- The last `n` bytes. -/
def lastBytes (n : ℕ) (bs : List Byte) : List Byte := bs.drop (bs.length - n)

/-- The bytes in the parser after the bytes `xs`, with the frames it publishes. -/
def follow (p : RtcmParser) (held : List Byte) : List Byte → List Byte × List (List Byte)
  | [] => (held, [])
  | x :: xs =>
    let r := p.feedRtcmByte x.1
    let rest := follow r.1 (lastBytes r.1.rtcmFrameLength (held ++ [x])) xs
    (rest.1, (r.2.map fun _ => held ++ [x]).toList ++ rest.2)

/-! ### The system -/

/-- What an operation does at the UARTs. -/
inductive Micro
  | flush
  | configure (cs : List Command)

section

variable {D : Type} (value : D → Float64)

/-- The part of a call at the UARTs. -/
def micros : Effect D → List Micro
  | .uartFlushInput => [.flush]
  | .configureSurveyOutput => [.configure Um980.configureSurveyOutput]
  | .configureBase lat lon height antennaModel =>
    [.configure (Um980.configureBase (value lat) (value lon) (value height) antennaModel)]
  | .configureRawOutput => [.configure Um980.configureRawOutput]
  | .configureSignalGroup => [.configure Um980.configureSignalGroup]
  | _ => []

/-- The station, what is left of its operation, the command line, the receiver, the FIFO of COM3, and
the frames published, with what was due at the time. -/
structure World (D : Type) where
  station : Station D
  script : List Micro
  line : List Request
  receiver : Receiver
  processed : ℕ
  fifo : List Byte
  held : List Byte
  published : List (List Byte × ℕ)

/-- How many `UNLOGALL COM3` a part of a script asks for. -/
def Micro.asks : Micro → ℕ
  | .flush => 0
  | .configure cs => (cs.flatMap Command.requests).count .unlogall

namespace World

/-- How many `UNLOGALL COM3` have been asked for, up to the end of the operation. -/
def due (w : World D) : ℕ :=
  w.processed + w.line.count .unlogall + (w.script.map Micro.asks).sum

def Publishes (s : Station D) : Prop := s.mode = .kTransmit ∧ s.rawCollection = false

def flushes (script : List Micro) : Bool := script.any fun m => match m with
  | .flush => true
  | .configure _ => false

def operate (w : World D) (s : Station D) : World D :=
  { w with
    station := s
    script := (s.effects.drop w.station.effects.length).flatMap (micros value)
    held := lastBytes s.parser.rtcmFrameLength w.held }

/-- The next part of the script: a flush, or a command that may be `written`, and may be `acknowledged`.
Without that nothing more is sent of its function. -/
def advance (w : World D) (written acknowledged : Bool) : Option (World D) :=
  match w.script with
  | [] => none
  | .flush :: script => some { w with script := script, fifo := [] }
  | .configure [] :: script => some { w with script := script }
  | .configure (c :: cs) :: script =>
    if c.accepted && written then
      some { w with
        line := w.line ++ c.requests
        script := if acknowledged then .configure cs :: script else script }
    else some { w with script := script }

/-- The receiver carries out a line. -/
def serve (w : World D) : Option (World D) :=
  match w.line with
  | [] => none
  | r :: line =>
    some { w with
      line := line
      receiver := w.receiver.serve r
      processed := w.processed + [r].count .unlogall }

/-- The receiver sends bytes that arrive, if a log is on. -/
def emit (w : World D) (bytes : List UInt8) : Option (World D) :=
  if w.receiver.now.logs = [] then none
  else some { w with fifo := w.fifo ++ bytes.map fun b => (b, w.processed) }

/-- The station reads `n` bytes: in survey mode it drops them, and in raw collection the logger gets
them. -/
def read (w : World D) (n : ℕ) (now : ℤ) (pushed : PushDestination → SlotIndex → Bool) : World D :=
  let data := w.fifo.take n
  match w.station.mode with
  | .kSurvey => { w with fifo := w.fifo.drop n }
  | .kTransmit =>
    if w.station.rawCollection then
      { w with station := w.station.act (.rinexFeed (data.map Prod.fst)), fifo := w.fifo.drop n }
    else
      let r := follow w.station.parser w.held data
      { w with
        station := w.station.readDataUart (data.map Prod.fst) now pushed
        fifo := w.fifo.drop n
        held := r.1
        published := w.published ++ r.2.map fun frame => (frame, w.due) }

end World

inductive Event (D : Type)
  | action (action : Action D) (exit a : Answers D)
  | surveyCompleted (lat lon height : D) (a : Answers D)
  | advance (written acknowledged : Bool)
  | serve
  | emit (bytes : List UInt8)
  | read (n : ℕ) (now : ℤ) (pushed : PushDestination → SlotIndex → Bool)
  | rateCheck (now : ℤ)
  | call (call : Station.Call)

/-- The station's own steps wait for the end of its operation. -/
def step (w : World D) : Event D → Option (World D)
  | .action action exit a =>
    if w.script.isEmpty then some (w.operate value (w.station.handleAction action exit a)) else none
  | .surveyCompleted lat lon height a =>
    if w.script.isEmpty then some (w.operate value (w.station.surveyCompleted lat lon height a)) else none
  | .advance written acknowledged => w.advance written acknowledged
  | .serve => w.serve
  | .emit bytes => w.emit bytes
  | .read n now pushed => if w.script.isEmpty then some (w.read n now pushed) else none
  | .rateCheck now =>
    if w.script.isEmpty then some { w with station := w.station.rateCheck now } else none
  | .call call => some { w with station := w.station.call call }

/-- The start of `run`, with whatever is in the FIFO. -/
def boot (enabled : Bool) (corrections : Corrections) (a : Answers D) (now : ℤ) (receiver : Receiver)
    (fifo : List UInt8) : World D :=
  World.operate value
    { station := Station.start enabled freshParser corrections
      script := [], line := [], receiver := receiver, processed := 0
      fifo := fifo.map fun b => (b, 0)
      held := [], published := [] }
    ((Station.start enabled freshParser corrections).boot a now)

/-- **The condition**: no `0xD3` arrives between the last flush of an operation that ends in base mode
and the last `UNLOGALL COM3` asked for. -/
def Quiet (w : World D) : Event D → Prop
  | .emit bytes => World.Publishes w.station → World.flushes w.script = false →
      w.processed < w.due → (0xD3 : UInt8) ∉ bytes
  | _ => True

end

/-! ### The bytes in the parser -/

theorem collect_suffix (b : List UInt8) (x : UInt8) : (collect b x).1 <:+ b ++ [x] ∧
    ∀ f, (collect b x).2 = some f → f = b ++ [x] := by
  have hrestart : restart x <:+ b ++ [x] := by
    unfold restart
    split_ifs
    · exact List.suffix_append b [x]
    · exact List.nil_suffix
  unfold collect
  split_ifs
  · exact ⟨hrestart, fun f h => (by cases h)⟩
  · exact ⟨hrestart, fun f h => (by cases h)⟩
  · exact ⟨List.suffix_rfl, fun f h => (by cases h)⟩
  · exact ⟨List.nil_suffix, fun f h => (Option.some.inj h).symm⟩
  · exact ⟨List.nil_suffix, fun f h => (by cases h)⟩

theorem map_lastBytes {n : ℕ} {bs : List Byte} {s : List UInt8} (hs : s <:+ bs.map Prod.fst)
    (hn : s.length = n) : (lastBytes n bs).map Prod.fst = s := by
  unfold lastBytes
  rw [List.map_drop, List.suffix_iff_eq_drop.mp hs, hn, List.length_map]

section

variable {p : RtcmParser} {held : List Byte} (hp : Wf p) (hheld : held.map Prod.fst = pending p)
include hp hheld

theorem map_held (x : Byte) : (lastBytes (p.feedRtcmByte x.1).1.rtcmFrameLength
    (held ++ [x])).map Prod.fst = pending (p.feedRtcmByte x.1).1 := by
  obtain ⟨hwf, hcollect⟩ := feedRtcmByte_refines hp x.1
  refine map_lastBytes ?_ hwf.length_pending
  rw [List.map_append, hheld]
  have hsuffix := (collect_suffix (pending p) x.1).1
  rw [← hcollect] at hsuffix
  exact hsuffix

theorem map_frame (x : Byte) : (((p.feedRtcmByte x.1).2.map fun _ => held ++ [x]).map
    (List.map Prod.fst)) = (p.feedRtcmByte x.1).2 := by
  obtain ⟨-, hcollect⟩ := feedRtcmByte_refines hp x.1
  rcases hframe : (p.feedRtcmByte x.1).2 with _ | f
  · rfl
  · rw [hframe] at hcollect
    have hf := (collect_suffix (pending p) x.1).2 f (congrArg Prod.snd hcollect).symm
    show some (List.map Prod.fst (held ++ [x])) = _
    rw [hf, List.map_append, hheld]
    rfl

end

/-- **The frames followed are those published**, and the bytes held are the parser's. -/
theorem follow_spec {p : RtcmParser} {held : List Byte} (hp : Wf p)
    (hheld : held.map Prod.fst = pending p) (xs : List Byte) :
    (follow p held xs).1.map Prod.fst = pending (feedRtcm p (xs.map Prod.fst)).1 ∧
      (follow p held xs).2.map (List.map Prod.fst) = (feedRtcm p (xs.map Prod.fst)).2 := by
  induction xs generalizing p held with
  | nil => exact ⟨hheld, rfl⟩
  | cons x xs ih =>
    obtain ⟨hwf, -⟩ := feedRtcmByte_refines hp x.1
    obtain ⟨hfst, hsnd⟩ := ih hwf (map_held hp hheld x)
    refine ⟨hfst, ?_⟩
    show List.map _ (_ ++ _) = _ ++ _
    rw [List.map_append, hsnd, ← map_frame hp hheld x]
    rcases (p.feedRtcmByte x.1).2 with _ | f
    · rfl
    · rfl

theorem follow_sublist (p : RtcmParser) (held xs : List Byte) :
    (follow p held xs).1.Sublist (held ++ xs) := by
  induction xs generalizing p held with
  | nil => exact List.sublist_append_left _ _
  | cons x xs ih =>
    refine (ih _ _).trans ?_
    rw [show held ++ x :: xs = (held ++ [x]) ++ xs by rw [List.append_assoc, List.singleton_append]]
    exact List.Sublist.append (List.drop_sublist _ _) (List.Sublist.refl _)

def Ordered (bs : List Byte) : Prop := bs.Pairwise fun x y => x.2 ≤ y.2

/-- **Old bytes are skipped** if none of them is a preamble. -/
theorem follow_young {p : RtcmParser} {held xs : List Byte} {due : ℕ} (hp : Wf p)
    (hheld : held.map Prod.fst = pending p) (hyoung : ∀ x ∈ held, due ≤ x.2)
    (hclean : ∀ x ∈ xs, x.2 < due → x.1 ≠ 0xD3) (horder : Ordered (held ++ xs)) :
    (∀ x ∈ (follow p held xs).1, due ≤ x.2) ∧
      ∀ f ∈ (follow p held xs).2, ∀ x ∈ f, due ≤ x.2 := by
  induction xs generalizing p held with
  | nil => exact ⟨hyoung, fun f hf => (by cases hf)⟩
  | cons x xs ih =>
    obtain ⟨hwf, -⟩ := feedRtcmByte_refines hp x.1
    have hrest := fun y hy => hclean y (List.mem_cons_of_mem _ hy)
    have hsub : (lastBytes (p.feedRtcmByte x.1).1.rtcmFrameLength (held ++ [x]) ++ xs).Sublist
        (held ++ x :: xs) := by
      rw [show held ++ x :: xs = (held ++ [x]) ++ xs by rw [List.append_assoc, List.singleton_append]]
      exact List.Sublist.append (List.drop_sublist _ _) (List.Sublist.refl _)
    have horder' : Ordered _ := List.Pairwise.sublist hsub horder
    have hmap := map_held hp hheld x
    by_cases hx : due ≤ x.2
    · have hnew : ∀ y ∈ held ++ [x], due ≤ y.2 := by
        intro y hy
        rcases List.mem_append.mp hy with hy | hy
        · exact hyoung y hy
        · rw [List.mem_singleton.mp hy]
          exact hx
      obtain ⟨h1, h2⟩ := ih hwf hmap (fun y hy => hnew y (List.mem_of_mem_drop hy)) hrest horder'
      refine ⟨h1, fun f hf => ?_⟩
      rcases List.mem_append.mp hf with hf | hf
      · obtain ⟨g, -, rfl⟩ := Option.map_eq_some_iff.mp (Option.mem_toList.mp hf)
        exact hnew
      · exact h2 f hf
    · -- the parser is idle, for the bytes it would hold are older still
      have hnil : held = [] := by
        rcases held with _ | ⟨y, held⟩
        · rfl
        · have hle := (List.pairwise_append.mp horder).2.2 y List.mem_cons_self x List.mem_cons_self
          have hdue := hyoung y List.mem_cons_self
          omega
      subst hnil
      have hidle : p.rtcmFrameLength = 0 := by
        rw [← hp.length_pending, ← hheld]
        rfl
      have hskip : p.feedRtcmByte x.1 = (p, none) := by
        rw [feedRtcmByte, if_pos hidle, if_pos (hclean x List.mem_cons_self (by omega))]
      have hnone : lastBytes (p.feedRtcmByte x.1).1.rtcmFrameLength ([] ++ [x]) = [] := by
        rw [hskip, hidle]
        rfl
      obtain ⟨h1, h2⟩ := ih hwf hmap (by rw [hnone]; exact fun y hy => (by cases hy)) hrest horder'
      refine ⟨h1, fun f hf => ?_⟩
      rcases List.mem_append.mp hf with hf | hf
      · rw [hskip] at hf
        cases hf
      · exact h2 f hf

/-! ### Operations -/

section

variable {D : Type} {value : D → Float64}

/-- What an operation may do: nothing at the UARTs, and the mode stays; or the parser is reset, and
if RTCM is read afterwards the FIFO is flushed. -/
def Moves (value : D → Float64) (s t : Station D) : Prop :=
  ∃ es, t.effects = s.effects ++ es ∧
    ((es.flatMap (micros value) = [] ∧ t.mode = s.mode ∧ t.rawCollection = s.rawCollection ∧
        t.parser = s.parser) ∨
      ((∃ p : RtcmParser, t.parser = p.resetRtcmParser) ∧
        (World.Publishes t → World.flushes (es.flatMap (micros value)) = true)))

theorem Moves.refl (s : Station D) : Moves value s s :=
  ⟨[], (List.append_nil _).symm, Or.inl ⟨rfl, rfl, rfl, rfl⟩⟩

theorem Moves.trans {s t u : Station D} (h1 : Moves value s t) (h2 : Moves value t u) :
    Moves value s u := by
  obtain ⟨es, he, h1⟩ := h1
  obtain ⟨es', he', h2⟩ := h2
  refine ⟨es ++ es', by rw [he', he, List.append_assoc], ?_⟩
  rw [List.flatMap_append]
  rcases h2 with ⟨hnil, hmode, hraw, hparser⟩ | ⟨hparser, hflush⟩
  · rw [hnil, List.append_nil]
    rcases h1 with ⟨hnil1, hmode1, hraw1, hparser1⟩ | ⟨⟨p, hparser1⟩, hflush⟩
    · exact Or.inl ⟨hnil1, hmode.trans hmode1, hraw.trans hraw1, hparser.trans hparser1⟩
    · exact Or.inr ⟨⟨p, hparser.trans hparser1⟩,
        fun hp => hflush ⟨hmode.symm.trans hp.1, hraw.symm.trans hp.2⟩⟩
  · refine Or.inr ⟨hparser, fun hp => ?_⟩
    unfold World.flushes
    rw [List.any_append, Bool.or_eq_true]
    exact Or.inr (hflush hp)

theorem appended {α : Type} (l : List α) (a b c : α) : l ++ [a] ++ [b] ++ [c] = l ++ [a, b, c] := by
  simp only [List.append_assoc, List.cons_append, List.nil_append]

theorem moves_enterSurvey (s : Station D) (clear : Bool) (a : Answers D) :
    Moves value s (s.enterSurvey clear a) := by
  cases clear
  · exact ⟨[.uartFlushInput, .surveyStart, .configureSurveyOutput],
      appended s.effects _ _ _, Or.inr ⟨⟨s.parser, rfl⟩, fun h => by cases h.1⟩⟩
  · exact ⟨[.clearPosition, .uartFlushInput, .surveyStart, .configureSurveyOutput],
      (appended (s.effects ++ [_]) _ _ _).trans (List.append_assoc _ _ _),
      Or.inr ⟨⟨s.parser, rfl⟩, fun h => by cases h.1⟩⟩

theorem moves_enterTransmit (s : Station D) (lat lon height : D) (a : Answers D) :
    Moves value s (s.enterTransmit lat lon height a) :=
  ⟨[.surveyReset, .uartFlushInput, .configureBase lat lon height a.antennaModel],
    appended s.effects _ _ _, Or.inr ⟨⟨s.parser, rfl⟩, fun _ => rfl⟩⟩

theorem moves_enterRawCollection (s : Station D) (a : Answers D) :
    Moves value s (s.enterRawCollection a) := by
  unfold Station.enterRawCollection
  split_ifs
  · exact .refl s
  · exact .refl s
  · exact ⟨[.uartFlushInput, .configureRawOutput, .rinexStart a.position.lat a.position.lon
      a.position.height a.antennaModel a.antennaRadome a.antennaHeight],
      appended s.effects _ _ _, Or.inr ⟨⟨s.parser, rfl⟩, fun h => by cases h.2⟩⟩

theorem moves_exitRawCollection (s : Station D) (a : Answers D) :
    Moves value s (s.exitRawCollection a) := by
  unfold Station.exitRawCollection
  split_ifs
  · exact ⟨[.rinexStop, .uartFlushInput, .configureBase a.position.lat a.position.lon a.position.height
      a.antennaModel],
      appended s.effects _ _ _, Or.inr ⟨⟨s.parser, rfl⟩, fun _ => rfl⟩⟩
  · exact .refl s

theorem moves_resetUm980 (s : Station D) (a : Answers D) : Moves value s (s.resetUm980 a) := by
  unfold Station.resetUm980
  split_ifs
  · exact .refl s
  · exact ⟨[.configureSignalGroup, .uartFlushInput, .configureBase a.position.lat a.position.lon
      a.position.height a.antennaModel],
      appended s.effects _ _ _, Or.inr ⟨⟨s.parser, rfl⟩, fun _ => rfl⟩⟩

theorem moves_saveAndTransmit (s : Station D) (lat lon height : D) (a : Answers D) :
    Moves value s (s.saveAndTransmit lat lon height a) := by
  have hsave : Moves value s (s.act (.savePosition lat lon height)) :=
    ⟨[_], rfl, Or.inl ⟨rfl, rfl, rfl, rfl⟩⟩
  unfold Station.saveAndTransmit
  dsimp only
  split_ifs
  · exact hsave.trans (moves_enterTransmit _ lat lon height a)
  · exact hsave

theorem moves_handleAction (s : Station D) (action : Action D) (exit a : Answers D) :
    Moves value s (s.handleAction action exit a) := by
  cases action with
  | kSurvey => exact (moves_exitRawCollection s exit).trans (moves_enterSurvey _ true a)
  | kPosition lat lon height =>
    exact (moves_exitRawCollection s exit).trans (moves_saveAndTransmit _ lat lon height a)
  | kStartRaw => exact moves_enterRawCollection s a
  | kStopRaw => exact moves_exitRawCollection s exit
  | kResetUm980 => exact moves_resetUm980 s a

theorem moves_surveyCompleted (s : Station D) (lat lon height : D) (a : Answers D) :
    Moves value s (s.surveyCompleted lat lon height a) := by
  unfold Station.surveyCompleted
  split_ifs
  · exact moves_saveAndTransmit s lat lon height a
  · exact .refl s

/-! ### The invariant -/

/-- What holds between any two steps: the bytes held are the parser's, none is old, and in the FIFO an
old byte is none that a frame begins with. -/
structure Inv (w : World D) : Prop where
  wf : Wf w.station.parser
  held : w.held.map Prod.fst = pending w.station.parser
  reading : w.held ≠ [] → World.Publishes w.station ∧ w.script = []
  young : ∀ x ∈ w.held, w.due ≤ x.2
  order : Ordered (w.held ++ w.fifo)
  bound : ∀ x ∈ w.held ++ w.fifo, x.2 ≤ w.processed
  clean : World.Publishes w.station → World.flushes w.script = false →
    ∀ x ∈ w.fifo, x.2 < w.due → x.1 ≠ 0xD3
  published : ∀ r ∈ w.published, ∀ x ∈ r.1, r.2 ≤ x.2

theorem Inv.operate {w : World D} (h : Inv w) (hscript : w.script = []) {s : Station D}
    (hmoves : Moves value w.station s) : Inv (w.operate value s) := by
  obtain ⟨es, heffects, hcases⟩ := hmoves
  have hdrop : s.effects.drop w.station.effects.length = es := by
    rw [heffects, List.drop_left]
  rcases hcases with ⟨hnil, hmode, hraw, hparser⟩ | ⟨⟨p, hparser⟩, hflush⟩
  · have hheld : lastBytes s.parser.rtcmFrameLength w.held = w.held := by
      have hlength : w.held.length = w.station.parser.rtcmFrameLength := by
        rw [← h.wf.length_pending, ← h.held, List.length_map]
      unfold lastBytes
      rw [hparser, ← hlength, Nat.sub_self, List.drop_zero]
    have hworld : w.operate value s = { w with station := s } := by
      unfold World.operate
      rw [hdrop, hnil, hheld, ← hscript]
    rw [hworld]
    have hpublishes : World.Publishes s ↔ World.Publishes w.station := by
      unfold World.Publishes
      rw [hmode, hraw]
    exact ⟨hparser ▸ h.wf, h.held.trans (by rw [← hparser]),
      fun hne => ⟨hpublishes.mpr (h.reading hne).1, hscript⟩, h.young, h.order, h.bound,
      fun hp => h.clean (hpublishes.mp hp), h.published⟩
  · have hheld : lastBytes s.parser.rtcmFrameLength w.held = [] := by
      unfold lastBytes
      rw [hparser]
      exact List.drop_length
    have hworld : w.operate value s =
        { w with station := s, script := es.flatMap (micros value), held := [] } := by
      unfold World.operate
      rw [hdrop, hheld]
    rw [hworld]
    refine ⟨hparser ▸ wf_reset p, by rw [hparser]; rfl, fun hne => absurd rfl hne,
      fun x hx => (by cases hx), (List.pairwise_append.mp h.order).2.1,
      fun x hx => h.bound x (List.mem_append_right _ hx), fun hp hno => ?_, h.published⟩
    rw [hflush hp] at hno
    cases hno

theorem Inv.idle {w : World D} (h : Inv w) (hscript : w.script ≠ []) : w.held = [] := by
  by_contra hne
  exact hscript (h.reading hne).2

/-- While the script runs, the FIFO may lose bytes and less may be due. -/
theorem Inv.scripted {w w' : World D} (h : Inv w) (hscript : w.script ≠ [])
    (hstation : w'.station = w.station) (hheld : w'.held = w.held)
    (hprocessed : w'.processed = w.processed) (hpublished : w'.published = w.published)
    (hfifo : w'.fifo.Sublist w.fifo)
    (hclean : World.Publishes w.station → World.flushes w'.script = false →
      ∀ x ∈ w'.fifo, x.2 < w'.due → x.1 ≠ 0xD3) : Inv w' := by
  have hnil : w'.held = [] := hheld.trans (h.idle hscript)
  have hsub : (w'.held ++ w'.fifo).Sublist (w.held ++ w.fifo) := by
    rw [hheld]
    exact (List.Sublist.refl _).append hfifo
  refine ⟨hstation ▸ h.wf, by rw [hheld, hstation]; exact h.held, fun hne => absurd hnil hne,
    fun x hx => ?_, List.Pairwise.sublist hsub h.order, fun x hx => ?_, hstation ▸ hclean,
    hpublished ▸ h.published⟩
  · rw [hnil] at hx
    cases hx
  · rw [hprocessed]
    exact h.bound x (hsub.subset hx)

theorem Inv.advance {w w' : World D} (h : Inv w) {written acknowledged : Bool}
    (hw : w.advance written acknowledged = some w') : Inv w' := by
  have hless : ∀ {script : List Micro} {line : List Request} {m : Micro},
      w.script = m :: w.script.tail →
      (World.flushes script = false → World.flushes w.script = false) →
      w.processed + line.count .unlogall + (script.map Micro.asks).sum ≤ w.due →
      Inv { w with script := script, line := line } := by
    intro script line m hm hflushes hdue
    refine h.scripted (by rw [hm]; exact List.cons_ne_nil _ _) rfl rfl rfl rfl (.refl _)
      fun hp hno x hx hold => ?_
    exact h.clean hp (hflushes hno) x hx (lt_of_lt_of_le hold hdue)
  unfold World.advance at hw
  rcases hscript : w.script with _ | ⟨_ | ⟨_ | ⟨c, cs⟩⟩, script⟩
  · rw [hscript] at hw
    cases hw
  · rw [hscript] at hw
    cases hw
    exact h.scripted (by rw [hscript]; exact List.cons_ne_nil _ _) rfl rfl rfl rfl (List.nil_sublist _)
      fun _ _ x hx => (by cases hx)
  · rw [hscript] at hw
    cases hw
    refine hless (m := .configure []) (by rw [hscript]; rfl) (fun hno => by rw [hscript]; exact hno) ?_
    unfold World.due
    rw [hscript, List.map_cons, List.sum_cons]
    omega
  · rw [hscript] at hw
    dsimp only at hw
    have hasks : (Micro.configure (c :: cs)).asks =
        c.requests.count .unlogall + (Micro.configure cs).asks := by
      unfold Micro.asks
      dsimp only
      rw [List.flatMap_cons, List.count_append]
    split_ifs at hw with hsent hack
    · cases hw
      refine hless (m := .configure (c :: cs)) (by rw [hscript]; rfl)
        (fun hno => by rw [hscript]; exact hno) ?_
      unfold World.due
      rw [hscript, List.map_cons, List.sum_cons, List.map_cons, List.sum_cons, hasks, List.count_append]
      omega
    · cases hw
      refine hless (m := .configure (c :: cs)) (by rw [hscript]; rfl)
        (fun hno => by rw [hscript]; exact hno) ?_
      unfold World.due
      rw [hscript, List.map_cons, List.sum_cons, hasks, List.count_append]
      omega
    · cases hw
      refine hless (m := .configure (c :: cs)) (by rw [hscript]; rfl)
        (fun hno => by rw [hscript]; exact hno) ?_
      unfold World.due
      rw [hscript, List.map_cons, List.sum_cons]
      omega

theorem Inv.serve {w w' : World D} (h : Inv w) (hw : w.serve = some w') : Inv w' := by
  unfold World.serve at hw
  rcases hline : w.line with _ | ⟨r, line⟩
  · rw [hline] at hw
    cases hw
  · rw [hline] at hw
    have hsame := Option.some.inj hw
    have hdue : w'.due = w.due := by
      unfold World.due
      rw [← hsame, hline, show r :: line = [r] ++ line from rfl, List.count_append]
      dsimp only
      omega
    subst hsame
    refine ⟨h.wf, h.held, h.reading, fun x hx => hdue ▸ h.young x hx, h.order,
      fun x hx => (h.bound x hx).trans (Nat.le_add_right _ _), fun hp hno x hx hold => ?_, h.published⟩
    rw [hdue] at hold
    exact h.clean hp hno x hx hold

theorem Inv.emit {w w' : World D} (h : Inv w) {bytes : List UInt8} (hquiet : Quiet w (.emit bytes))
    (hw : w.emit bytes = some w') : Inv w' := by
  unfold World.emit at hw
  split_ifs at hw
  cases hw
  have hnew : ∀ x ∈ bytes.map (fun b => (b, w.processed)), x.2 = w.processed := by
    intro x hx
    obtain ⟨b, -, rfl⟩ := List.mem_map.mp hx
    rfl
  refine ⟨h.wf, h.held, h.reading, h.young, ?_, ?_, ?_, h.published⟩
  · show Ordered (w.held ++ (w.fifo ++ _))
    rw [← List.append_assoc]
    refine List.pairwise_append.mpr ⟨h.order, ?_, fun x hx y hy => ?_⟩
    · refine List.pairwise_of_forall_mem_list fun x hx y hy => ?_
      rw [hnew x hx, hnew y hy]
    · rw [hnew y hy]
      exact h.bound x hx
  · intro x hx
    rw [← List.append_assoc] at hx
    rcases List.mem_append.mp hx with hx | hx
    · exact h.bound x hx
    · exact (hnew x hx).le
  · intro hp hno x hx hold
    rcases List.mem_append.mp hx with hx | hx
    · exact h.clean hp hno x hx hold
    · have hdue : w.processed < w.due := by
        rw [← hnew x hx]
        exact hold
      obtain ⟨b, hb, rfl⟩ := List.mem_map.mp hx
      rintro rfl
      exact hquiet hp hno hdue hb

theorem parser_readDataUart (s : Station D) (data : List UInt8) (now : ℤ)
    (pushed : PushDestination → SlotIndex → Bool) :
    (s.readDataUart data now pushed).parser = (feedRtcm s.parser data).1 := by
  show (data.foldl (fun s byte => s.feedRtcmByte now byte) s).parser = _
  induction data generalizing s with
  | nil => rfl
  | cons byte data ih =>
    rw [List.foldl_cons, ih]
    show (feedRtcm (s.feedRtcmByte now byte).parser data).1 = (feedRtcm (s.parser.feedRtcmByte byte).1 data).1
    rcases feedRtcmByte_cases s now byte with ⟨-, hs⟩ | ⟨frame, -, hs⟩
    · rw [hs]
    · rw [hs, parser_publishRtcmFrame]

theorem Inv.read {w : World D} (h : Inv w) (hscript : w.script = []) (n : ℕ) (now : ℤ)
    (pushed : PushDestination → SlotIndex → Bool) : Inv (w.read n now pushed) := by
  have hdrop : (w.held ++ w.fifo.drop n).Sublist (w.held ++ w.fifo) :=
    (List.Sublist.refl _).append (List.drop_sublist _ _)
  unfold World.read
  dsimp only
  rcases hmode : w.station.mode
  · exact ⟨h.wf, h.held, h.reading, h.young, List.Pairwise.sublist hdrop h.order,
      fun x hx => h.bound x (hdrop.subset hx),
      fun hp hno x hx => h.clean hp hno x (List.mem_of_mem_drop hx), h.published⟩
  · dsimp only
    by_cases hraw : w.station.rawCollection = true
    · rw [if_pos hraw]
      exact ⟨h.wf, h.held, h.reading, h.young, List.Pairwise.sublist hdrop h.order,
        fun x hx => h.bound x (hdrop.subset hx),
        fun hp hno x hx => h.clean hp hno x (List.mem_of_mem_drop hx), h.published⟩
    · rw [if_neg hraw]
      have hpublishes : World.Publishes w.station := ⟨hmode, Bool.eq_false_of_not_eq_true hraw⟩
      have hno : World.flushes w.script = false := by
        rw [hscript]
        rfl
      have hkept := readKept_readDataUart w.station ((w.fifo.take n).map Prod.fst) now pushed
      have hparser := parser_readDataUart w.station ((w.fifo.take n).map Prod.fst) now pushed
      have horder : Ordered (w.held ++ w.fifo.take n) :=
        List.Pairwise.sublist ((List.Sublist.refl _).append (List.take_sublist _ _)) h.order
      obtain ⟨hyoung, hframes⟩ := follow_young h.wf h.held h.young
        (fun x hx => h.clean hpublishes hno x (List.mem_of_mem_take hx)) horder
      have hsub : ((follow w.station.parser w.held (w.fifo.take n)).1 ++ w.fifo.drop n).Sublist
          (w.held ++ w.fifo) := by
        have happend := (follow_sublist w.station.parser w.held (w.fifo.take n)).append
          (List.Sublist.refl (w.fifo.drop n))
        rwa [List.append_assoc, List.take_append_drop] at happend
      refine ⟨?_, ?_, fun _ => ⟨⟨?_, ?_⟩, hscript⟩, hyoung, List.Pairwise.sublist hsub h.order,
        fun x hx => h.bound x (hsub.subset hx),
        fun _ _ x hx => h.clean hpublishes hno x (List.mem_of_mem_drop hx), ?_⟩
      · show Wf (w.station.readDataUart _ now pushed).parser
        rw [hparser]
        exact (feedRtcm_refines h.wf _).1
      · show _ = pending (w.station.readDataUart _ now pushed).parser
        rw [hparser]
        exact (follow_spec h.wf h.held _).1
      · exact hkept.mode.trans hmode
      · exact hkept.rawCollection.trans hpublishes.2
      · intro r hr
        rcases List.mem_append.mp hr with hr | hr
        · exact h.published r hr
        · obtain ⟨f, hf, rfl⟩ := List.mem_map.mp hr
          exact hframes f hf

theorem Inv.station {w : World D} (h : Inv w) {s : Station D} (hmode : s.mode = w.station.mode)
    (hraw : s.rawCollection = w.station.rawCollection) (hparser : s.parser = w.station.parser) :
    Inv { w with station := s } := by
  have hpublishes : World.Publishes s ↔ World.Publishes w.station := by
    unfold World.Publishes
    rw [hmode, hraw]
  exact ⟨hparser ▸ h.wf, by rw [hparser]; exact h.held,
    fun hne => ⟨hpublishes.mpr (h.reading hne).1, (h.reading hne).2⟩, h.young, h.order, h.bound,
    fun hp => h.clean (hpublishes.mp hp), h.published⟩

theorem call_kept (s : Station D) (call : Station.Call) : (s.call call).mode = s.mode ∧
    (s.call call).rawCollection = s.rawCollection ∧ (s.call call).parser = s.parser := by
  cases call with
  | setNetworkAvailable available =>
    unfold Station.call Station.setNetworkAvailable
    dsimp only
    split_ifs
    · exact ⟨rfl, rfl, rfl⟩
    · exact ⟨rfl, rfl, rfl⟩
  | _ => exact ⟨rfl, rfl, rfl⟩

theorem rateCheck_kept (s : Station D) (now : ℤ) : (s.rateCheck now).mode = s.mode ∧
    (s.rateCheck now).rawCollection = s.rawCollection ∧ (s.rateCheck now).parser = s.parser := by
  unfold Station.rateCheck
  dsimp only
  split_ifs
  · exact ⟨rfl, rfl, rfl⟩
  · exact ⟨rfl, rfl, rfl⟩
  · exact ⟨rfl, rfl, rfl⟩

/-- **Every step that meets the condition keeps the invariant.** -/
theorem inv_step {w w' : World D} {e : Event D} (h : Inv w) (hquiet : Quiet w e)
    (hw : step value w e = some w') : Inv w' := by
  have hempty : ∀ {t : World D}, (if w.script.isEmpty then some t else none) = some w' →
      w.script = [] ∧ t = w' := by
    intro t ht
    split_ifs at ht with hs
    exact ⟨List.isEmpty_iff.mp hs, Option.some.inj ht⟩
  cases e with
  | action action exit a =>
    obtain ⟨hscript, rfl⟩ := hempty hw
    exact h.operate hscript (moves_handleAction _ action exit a)
  | surveyCompleted lat lon height a =>
    obtain ⟨hscript, rfl⟩ := hempty hw
    exact h.operate hscript (moves_surveyCompleted _ lat lon height a)
  | advance written acknowledged => exact h.advance hw
  | serve => exact h.serve hw
  | emit bytes => exact h.emit hquiet hw
  | read n now pushed =>
    obtain ⟨hscript, rfl⟩ := hempty hw
    exact h.read hscript n now pushed
  | rateCheck now =>
    obtain ⟨hscript, rfl⟩ := hempty hw
    obtain ⟨hmode, hraw, hparser⟩ := rateCheck_kept w.station now
    exact h.station hmode hraw hparser
  | call call =>
    cases hw
    obtain ⟨hmode, hraw, hparser⟩ := call_kept w.station call
    exact h.station hmode hraw hparser

theorem moves_boot (s : Station D) (a : Answers D) (now : ℤ) : Moves value s (s.boot a now) := by
  have hwindow : ∀ t : Station D, Moves value s t → Moves value s
      { t with rateStarted := now, rateBytes := 0, straddles := false, oldBytes := 0 } :=
    fun t ht => ht.trans ⟨[], (List.append_nil _).symm, Or.inl ⟨rfl, rfl, rfl, rfl⟩⟩
  unfold Station.boot
  dsimp only
  split_ifs
  · exact hwindow _ (moves_enterTransmit s _ _ _ a)
  · exact hwindow _ (moves_enterSurvey s false a)

theorem inv_boot (value : D → Float64) (enabled : Bool) (corrections : Corrections) (a : Answers D)
    (now : ℤ) (receiver : Receiver) (fifo : List UInt8) :
    Inv (boot value enabled corrections a now receiver fifo) := by
  refine Inv.operate ⟨wf_reset freshParser, rfl, fun hne => absurd rfl hne, fun x hx => (by cases hx), ?_,
    ?_, fun hp => (by cases hp.1), fun r hr => (by cases hr)⟩ rfl (moves_boot _ a now)
  · refine List.pairwise_of_forall_mem_list fun x hx y hy => ?_
    obtain ⟨b, -, rfl⟩ := List.mem_map.mp hx
    exact Nat.zero_le _
  · intro x hx
    obtain ⟨b, -, rfl⟩ := List.mem_map.mp hx
    exact le_rfl

/-- **No frame of the old position is published**, in any run in which no preamble arrives between the
flush and the `UNLOGALL COM3` of an operation that ends in base mode. -/
theorem no_old_frame (value : D → Float64) (enabled : Bool) (corrections : Corrections) (a : Answers D)
    (now : ℤ) (receiver : Receiver) (fifo : List UInt8) {events : List (Event D)} {w : World D}
    (hquiet : Machine.Along (step value) Quiet (boot value enabled corrections a now receiver fifo) events)
    (hrun : Machine.run (step value) (boot value enabled corrections a now receiver fifo) events = some w) :
    ∀ r ∈ w.published, ∀ x ∈ r.1, r.2 ≤ x.2 :=
  (Machine.run_invariant_along (fun _ _ _ h hq hw => inv_step h hq hw) events
    (inv_boot value enabled corrections a now receiver fifo) hquiet hrun).published

end

/-! ### Runs -/

/-- The station and the receiver in base mode, and a position given by hand; a frame is sent after `n`
of its parts. -/
def change (n : ℕ) : List (Event Unit) :=
  List.flatten [.replicate 22 (.advance true true), .replicate 20 .serve,
    [.action (.kPosition () () ()) .stored .stored], .replicate n (.advance true true), [.emit nullFrame],
    .replicate (22 - n) (.advance true true), .replicate 20 .serve,
    [.read 256 0 fun _ _ => true, .emit nullFrame, .read 256 0 fun _ _ => true]]

/-- The frames published in `change n`. -/
def publishedIn (n : ℕ) : Option (List (List Byte × ℕ)) :=
  (Machine.run (step fun _ => .ofInt 1)
    (boot (fun _ => .ofInt 1) true (resetRtcmState 0) .stored 0 ⟨⟨[], none⟩, ⟨[], none⟩, []⟩ [])
    (change n)).map World.published

instance {D : Type} (s : Station D) : Decidable (World.Publishes s) := by
  unfold World.Publishes
  infer_instance

instance {D : Type} (w : World D) (e : Event D) : Decidable (Quiet w e) := by
  unfold Quiet
  cases e
  all_goals infer_instance

/-- A frame sent before the flush. -/
theorem no_old_frame_change : publishedIn 0 = some [(nullFrame.map fun b => (b, 2), 2)] ∧
    ∀ r ∈ [(nullFrame.map fun b => (b, 2), 2)], ∀ x ∈ (r : List Byte × ℕ).1, r.2 ≤ x.2 := by
  have hpublished : publishedIn 0 = some [(nullFrame.map fun b => (b, 2), 2)] := by decide +kernel
  refine ⟨hpublished, ?_⟩
  obtain ⟨w, hw, hsame⟩ := Option.map_eq_some_iff.mp hpublished
  rw [← hsame]
  exact no_old_frame _ true (resetRtcmState 0) .stored 0 _ []
    (Machine.along_of_check (c := fun w e => decide (Quiet w e)) (fun w e h => of_decide_eq_true h) _ _
      (by decide +kernel)) hw

/-- **A frame sent after the flush** is published after the receiver has ended its logs. -/
theorem old_frame : ∃ w, Machine.run (step fun _ => .ofInt 1)
    (boot (fun _ => .ofInt 1) true (resetRtcmState 0) .stored 0 ⟨⟨[], none⟩, ⟨[], none⟩, []⟩ [])
    (change 1) = some w ∧ ∃ r ∈ w.published, ∃ x ∈ r.1, x.2 < r.2 := by
  have hpublished : publishedIn 1 =
      some [(nullFrame.map fun b => (b, 1), 2), (nullFrame.map fun b => (b, 2), 2)] := by decide +kernel
  obtain ⟨w, hw, hsame⟩ := Option.map_eq_some_iff.mp hpublished
  refine ⟨w, hw, ?_⟩
  rw [hsame]
  exact ⟨_, List.mem_cons_self, (0xD3, 1), List.mem_cons_self, by decide⟩

end GpsBase.Control.OldFrames
