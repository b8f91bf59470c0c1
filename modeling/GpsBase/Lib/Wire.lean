import Mathlib.Tactic

/-! # What was written on a connection

A link is one connection seen from the program that writes packets to it: the bytes handed to the
socket, the packets sent in full, and whether one is under way. The operations are what a sender
does: begin a packet, write a chunk, finish the packet or give it up, close. `Whole` is the law of a
link on which packets are written one after the other and none is begun after one was given up: the
bytes are those of whole packets and at most one prefix. Each operation keeps it under the condition
stated with it.

Packets carry their number in the order of acceptance. `Whole` asks for growing numbers, so that the
packets of a link are a subsequence of those accepted (`sublist_of_numbers`). `Feeds` is the law of a
queue that feeds several links, numbered as they are opened. -/

namespace GpsBase.Lib.Wire

variable {β : Type*}

/-- A packet and its number in the order of acceptance. -/
structure Packet (β : Type*) where
  number : ℕ
  data : List β
  deriving DecidableEq

/-- What the sender is doing with a link. `torn` is a packet given up, `closed` keeps what was under
way. -/
inductive Phase (β : Type*)
  | idle
  | sending (p : Packet β) (sent : ℕ)
  | torn (p : Packet β) (sent : ℕ)
  | closed (cut : Option (Packet β × ℕ))

/-- The packet begun and not finished, with the count of its bytes written. -/
def Phase.current : Phase β → Option (Packet β × ℕ)
  | .idle => none
  | .sending p k => some (p, k)
  | .torn p k => some (p, k)
  | .closed cut => cut

/-- The sender writes nothing more. -/
def Phase.over : Phase β → Bool
  | .idle => false
  | .sending _ _ => false
  | .torn _ _ => true
  | .closed _ => true

/-- **A connection as its sender has used it.** -/
structure Link (β : Type*) where
  wire : List β := []
  done : List (Packet β) := []
  phase : Phase β := .idle

namespace Link

def begun (l : Link β) : List (Packet β) := l.done ++ (l.phase.current.map Prod.fst).toList

/-- The bytes of the packet begun and not finished. -/
def rest (l : Link β) : List β := l.phase.current.elim [] fun c => c.1.data.take c.2

/-! ### Operations -/

def start (l : Link β) (p : Packet β) : Link β := { l with phase := .sending p 0 }

/-- Hand a chunk to the socket. -/
def put (l : Link β) (chunk : List β) : Link β where
  wire := l.wire ++ chunk
  done := l.done
  phase := match l.phase with
    | .sending p k => .sending p (k + chunk.length)
    | other => other

/-- The packet under way is sent in full. -/
def finish (l : Link β) : Link β :=
  match l.phase with
  | .sending p _ => { l with done := l.done ++ [p], phase := .idle }
  | _ => l

/-- The packet under way is given up. -/
def tear (l : Link β) : Link β :=
  match l.phase with
  | .sending p k => { l with phase := .torn p k }
  | _ => l

def close (l : Link β) : Link β := { l with phase := .closed l.phase.current }

/-! ### Whole packets -/

/-- Packets of a list have growing numbers. -/
def Growing (ps : List (Packet β)) : Prop := (ps.map Packet.number).Pairwise (· < ·)

/-- **The bytes are those of whole packets, and a prefix of the one under way or given up.** -/
structure Whole (l : Link β) : Prop where
  wire_eq : l.wire = (l.done.map Packet.data).flatten ++ l.rest
  le_length : ∀ p k, l.phase.current = some (p, k) → k ≤ p.data.length
  lt_length : l.phase.over = true → ∀ p k, l.phase.current = some (p, k) → k < p.data.length
  growing : Growing l.begun

theorem whole_new : Whole ({} : Link β) where
  wire_eq := rfl
  le_length := by intro p k h; cases h
  lt_length := by intro h; cases h
  growing := List.Pairwise.nil

theorem Whole.start {l : Link β} (hl : Whole l) (hidle : l.phase = .idle) {p : Packet β}
    (hp : ∀ q ∈ l.begun, q.number < p.number) : Whole (l.start p) := by
  have hbegun : l.begun = l.done := by simp [begun, hidle, Phase.current]
  rw [hbegun] at hp
  refine ⟨?_, ?_, fun h => (by cases h), ?_⟩
  · have hw := hl.wire_eq
    simpa [rest, Link.start, hidle, Phase.current] using hw
  · rintro q k ⟨⟩
    exact Nat.zero_le _
  · have hg := hl.growing
    rw [hbegun] at hg
    show Growing (l.done ++ [p])
    rw [Growing, List.map_append, List.pairwise_append]
    refine ⟨hg, List.pairwise_singleton _ _, ?_⟩
    simpa using hp

theorem Whole.put {l : Link β} (hl : Whole l) {p : Packet β} {k : ℕ}
    (hp : l.phase = .sending p k) {chunk : List β} (hc : chunk <+: p.data.drop k) :
    Whole (l.put chunk) := by
  have hk := hl.le_length p k (by rw [hp]; rfl)
  have hlen : k + chunk.length ≤ p.data.length := by
    have := hc.length_le
    rw [List.length_drop] at this
    omega
  refine ⟨?_, ?_, fun h => ?_, ?_⟩
  · have hw := hl.wire_eq
    simp only [rest, hp, Phase.current, Option.elim_some] at hw
    simp only [Link.put, rest, hp, Phase.current, Option.elim_some]
    rw [hw, List.append_assoc, List.take_add, ← List.prefix_iff_eq_take.mp hc]
  · intro q j h
    simp only [Link.put, hp, Phase.current, Option.some.injEq, Prod.mk.injEq] at h
    obtain ⟨rfl, rfl⟩ := h
    exact hlen
  · simp [Link.put, hp, Phase.over] at h
  · have hg := hl.growing
    simpa [begun, Link.put, hp, Phase.current] using hg

theorem Whole.finish {l : Link β} (hl : Whole l) {p : Packet β} {k : ℕ}
    (hp : l.phase = .sending p k) (hk : p.data.length ≤ k) : Whole l.finish := by
  have hfin : l.finish = { l with done := l.done ++ [p], phase := .idle } := by
    simp [Link.finish, hp]
  rw [hfin]
  refine ⟨?_, ?_, fun h => (by cases h), ?_⟩
  · have hw := hl.wire_eq
    simp only [rest, hp, Phase.current, Option.elim_some] at hw
    rw [List.take_of_length_le hk] at hw
    simpa [rest, Phase.current] using hw
  · intro q j h
    cases h
  · have hg := hl.growing
    simpa [begun, hp, Phase.current] using hg

theorem Whole.tear {l : Link β} (hl : Whole l) {p : Packet β} {k : ℕ}
    (hp : l.phase = .sending p k) (hk : k < p.data.length) : Whole l.tear := by
  have htear : l.tear = { l with phase := .torn p k } := by simp [Link.tear, hp]
  have hw := hl.wire_eq
  have hg := hl.growing
  rw [htear]
  refine ⟨?_, ?_, fun _ => ?_, ?_⟩
  · simpa [rest, hp, Phase.current] using hw
  · rintro q j ⟨⟩
    exact hk.le
  · rintro q j ⟨⟩
    exact hk
  · simpa [begun, hp, Phase.current] using hg

/-- A link may be closed at any time but in the middle of a write. -/
theorem Whole.close {l : Link β} (hl : Whole l) (hp : ∀ p k, l.phase ≠ .sending p k) :
    Whole l.close := by
  refine ⟨hl.wire_eq, hl.le_length, fun _ q j h => ?_, hl.growing⟩
  rcases hphase : l.phase with _ | ⟨p, k⟩ | ⟨p, k⟩ | cut
  · rw [Link.close, hphase] at h
    cases h
  · exact absurd hphase (hp p k)
  · exact hl.lt_length (by rw [hphase]; rfl) q j h
  · exact hl.lt_length (by rw [hphase]; rfl) q j h

theorem mem_begun_put {l : Link β} {p : Packet β} {chunk : List β} :
    p ∈ (l.put chunk).begun → p ∈ l.begun := by
  unfold begun put
  rcases l.phase with _ | _ | _ | _ <;> exact id

theorem mem_begun_finish {l : Link β} {p : Packet β} : p ∈ l.finish.begun → p ∈ l.begun := by
  unfold begun finish
  rcases hl : l.phase with _ | ⟨q, k⟩ | _ | _ <;> simp [hl, Phase.current]

theorem mem_begun_tear {l : Link β} {p : Packet β} : p ∈ l.tear.begun → p ∈ l.begun := by
  unfold begun tear
  rcases hl : l.phase with _ | ⟨q, k⟩ | _ | _ <;> simp [hl, Phase.current]

theorem mem_begun_start {l : Link β} (hidle : l.phase = .idle) {p q : Packet β} :
    q ∈ (l.start p).begun → q ∈ l.begun ∨ q = p := by
  intro hq
  have hbegun : (l.start p).begun = l.begun ++ [p] := by simp [begun, start, hidle, Phase.current]
  rw [hbegun] at hq
  exact (List.mem_append.mp hq).imp id List.mem_singleton.mp

end Link

/-! ### Numbers and the order of acceptance -/

open Link

/-- A packet is the one accepted under its number. -/
def IsAccepted (accepted : List (List β)) (p : Packet β) : Prop :=
  accepted[p.number]? = some p.data

theorem sublist_drop_of_numbers {accepted : List (List β)} :
    ∀ (ps : List (Packet β)) (n : ℕ), Growing ps → (∀ p ∈ ps, n ≤ p.number) →
      (∀ p ∈ ps, IsAccepted accepted p) → (ps.map Packet.data).Sublist (accepted.drop n)
  | [], _, _, _, _ => List.nil_sublist _
  | p :: ps, n, hg, hn, ha => by
    obtain ⟨hlt, heq⟩ := List.getElem?_eq_some_iff.mp (ha p List.mem_cons_self)
    obtain ⟨hfirst, hrest⟩ := List.pairwise_cons.mp hg
    have hps : (ps.map Packet.data).Sublist (accepted.drop (p.number + 1)) := by
      refine sublist_drop_of_numbers ps _ hrest (fun q hq => ?_) fun q hq =>
        ha q (List.mem_cons_of_mem _ hq)
      exact hfirst q.number (List.mem_map_of_mem hq)
    have hdrop : accepted.drop p.number = p.data :: accepted.drop (p.number + 1) := by
      rw [← heq, List.drop_eq_getElem_cons hlt]
    have hhead : (p.data :: ps.map Packet.data).Sublist (accepted.drop p.number) := by
      rw [hdrop]
      exact hps.cons_cons _
    exact hhead.trans (List.drop_sublist_drop_left _ (hn p List.mem_cons_self))

/-- **Packets with growing numbers are a subsequence of those accepted.** -/
theorem sublist_of_numbers {accepted : List (List β)} {ps : List (Packet β)} (hg : Growing ps)
    (ha : ∀ p ∈ ps, IsAccepted accepted p) : (ps.map Packet.data).Sublist accepted :=
  sublist_drop_of_numbers ps 0 hg (fun _ _ => Nat.zero_le _) ha

theorem IsAccepted.append {accepted : List (List β)} {p : Packet β} (h : IsAccepted accepted p)
    (more : List (List β)) : IsAccepted (accepted ++ more) p := by
  obtain ⟨hlt, heq⟩ := List.getElem?_eq_some_iff.mp h
  rw [IsAccepted, List.getElem?_append_left hlt]
  exact h

/-- A packet that takes the next number is later than every packet accepted before. -/
theorem IsAccepted.number_lt {accepted : List (List β)} {p : Packet β}
    (h : IsAccepted accepted p) : p.number < accepted.length :=
  (List.getElem?_eq_some_iff.mp h).1

/-! ### A queue and its links -/

/-- **A queue that feeds links**: what is queued or begun was accepted, and what is begun is older
than what is queued. -/
structure Feeds (accepted : List (List β)) (queue : List (Packet β)) (links : ℕ → Link β)
    (opened : ℕ) : Prop where
  queued : ∀ p ∈ queue, IsAccepted accepted p
  growing : Growing queue
  whole : ∀ c, (links c).Whole
  begun : ∀ c, ∀ p ∈ (links c).begun, IsAccepted accepted p
  older : ∀ c, ∀ p ∈ (links c).begun, ∀ q ∈ queue, p.number < q.number
  unopened : ∀ c, opened ≤ c → links c = {}

namespace Feeds

variable {accepted : List (List β)} {queue : List (Packet β)} {links : ℕ → Link β} {opened : ℕ}

theorem new : Feeds (β := β) [] [] (fun _ => {}) 0 where
  queued := by intro p hp; cases hp
  growing := List.Pairwise.nil
  whole := fun _ => whole_new
  begun := by intro c p hp; cases hp
  older := by intro c p hp; cases hp
  unopened := fun _ _ => rfl

theorem enqueue (h : Feeds accepted queue links opened) (data : List β) :
    Feeds (accepted ++ [data]) (queue ++ [⟨accepted.length, data⟩]) links opened := by
  refine ⟨fun p hp => ?_, ?_, h.whole, fun c p hp => (h.begun c p hp).append _, fun c p hp q hq => ?_,
    h.unopened⟩
  · rcases List.mem_append.mp hp with hp | hp
    · exact (h.queued p hp).append _
    · rw [List.mem_singleton.mp hp]
      exact List.getElem?_concat_length
  · rw [Growing, List.map_append, List.pairwise_append]
    refine ⟨h.growing, List.pairwise_singleton _ _, fun n hn m hm => ?_⟩
    obtain ⟨p, hp, rfl⟩ := List.mem_map.mp hn
    rw [List.mem_singleton.mp hm]
    exact (h.queued p hp).number_lt
  · rcases List.mem_append.mp hq with hq | hq
    · exact h.older c p hp q hq
    · rw [List.mem_singleton.mp hq]
      exact (h.begun c p hp).number_lt

theorem drop (h : Feeds accepted queue links opened) {queue' : List (Packet β)}
    (hq : queue'.Sublist queue) : Feeds accepted queue' links opened :=
  ⟨fun p hp => h.queued p (hq.subset hp), h.growing.sublist (hq.map _), h.whole, h.begun,
    fun c p hp q hmem => h.older c p hp q (hq.subset hmem), h.unopened⟩

theorem openLink (h : Feeds accepted queue links opened) : Feeds accepted queue links (opened + 1) :=
  ⟨h.queued, h.growing, h.whole, h.begun, h.older, fun c hc => h.unopened c (Nat.le_of_succ_le hc)⟩

/-- Links that stay whole and begin only packets that are older than the queue. -/
theorem relink (h : Feeds accepted queue links opened) {links' : ℕ → Link β}
    (hwhole : ∀ c, (links' c).Whole) (hbegun : ∀ c, ∀ p ∈ (links' c).begun, p ∈ (links c).begun ∨
      IsAccepted accepted p ∧ ∀ q ∈ queue, p.number < q.number)
    (hunopened : ∀ c, opened ≤ c → links' c = links c) : Feeds accepted queue links' opened := by
  refine ⟨h.queued, h.growing, hwhole, fun c p hp => ?_, fun c p hp => ?_, fun c hc => ?_⟩
  · rcases hbegun c p hp with hp | hp
    · exact h.begun c p hp
    · exact hp.1
  · rcases hbegun c p hp with hp | hp
    · exact h.older c p hp
    · exact hp.2
  · rw [hunopened c hc]
    exact h.unopened c hc

theorem update (h : Feeds accepted queue links opened) {c : ℕ} (hc : c < opened) {l : Link β}
    (hwhole : l.Whole) (hbegun : ∀ p ∈ l.begun, p ∈ (links c).begun ∨
      IsAccepted accepted p ∧ ∀ q ∈ queue, p.number < q.number) :
    Feeds accepted queue (Function.update links c l) opened := by
  refine h.relink (fun d => ?_) (fun d p hp => ?_) fun d hd => ?_
  · rcases eq_or_ne d c with rfl | hdc
    · rwa [Function.update_self]
    · rw [Function.update_of_ne hdc]
      exact h.whole d
  · rcases eq_or_ne d c with rfl | hdc
    · rw [Function.update_self] at hp
      exact hbegun p hp
    · rw [Function.update_of_ne hdc] at hp
      exact Or.inl hp
  · exact Function.update_of_ne (by omega) ..

end Feeds

/-! ### Links on which sending is over -/

/-- Where sending is over, nothing more is written. -/
def Kept (links links' : ℕ → Link β) : Prop :=
  ∀ c, (links c).phase.over = true →
    (links' c).phase.over = true ∧ (links' c).wire = (links c).wire

theorem Kept.refl (links : ℕ → Link β) : Kept links links := fun _ h => ⟨h, rfl⟩

theorem Kept.trans {l l' l'' : ℕ → Link β} (h : Kept l l') (h' : Kept l' l'') : Kept l l'' :=
  fun c hc => ⟨(h' c (h c hc).1).1, (h' c (h c hc).1).2.trans (h c hc).2⟩

theorem kept_update {links : ℕ → Link β} {c : ℕ} {l : Link β}
    (h : (links c).phase.over = true → l.phase.over = true ∧ l.wire = (links c).wire) :
    Kept links (Function.update links c l) := by
  intro d hd
  rcases eq_or_ne d c with rfl | hdc
  · rw [Function.update_self]
    exact h hd
  · rw [Function.update_of_ne hdc]
    exact ⟨hd, rfl⟩

theorem kept_close (links : ℕ → Link β) (c : ℕ) :
    Kept links (Function.update links c (links c).close) := kept_update fun _ => ⟨rfl, rfl⟩

theorem kept_open {links : ℕ → Link β} {c : ℕ} (hopen : (links c).phase.over = false) (l : Link β) :
    Kept links (Function.update links c l) := kept_update fun h => by
  rw [hopen] at h
  cases h

/-! ### Packets on the wire -/

/-- The wire of a link read as packets: complete ones, a subsequence of those accepted, then perhaps
some bytes of the packet under way or given up, but not all. -/
def WholePackets (accepted : List (List β)) (l : Link β) : Prop :=
  ∃ (complete : List (List β)) (cut : List β), l.wire = complete.flatten ++ cut ∧
    complete.Sublist accepted ∧
    (cut ≠ [] → ∃ p n, l.phase.current = some (p, n) ∧ n < p.data.length ∧
      cut = p.data.take n ∧ (complete ++ [p.data]).Sublist accepted)

theorem Link.Whole.wholePackets {l : Link β} (hl : l.Whole) {accepted : List (List β)}
    (ha : ∀ p ∈ l.begun, IsAccepted accepted p) : WholePackets accepted l := by
  have hsub := sublist_of_numbers hl.growing ha
  have hwire := hl.wire_eq
  unfold Link.begun at hsub
  unfold Link.rest at hwire
  rcases hcur : l.phase.current with _ | ⟨p, n⟩ <;> rw [hcur] at hsub hwire
  · refine ⟨l.done.map Packet.data, [], hwire, by simpa using hsub, fun h => absurd rfl h⟩
  · have hsub' : (l.done.map Packet.data ++ [p.data]).Sublist accepted := by simpa using hsub
    rcases (hl.le_length p n hcur).lt_or_eq with hlt | heq
    · refine ⟨l.done.map Packet.data, p.data.take n, hwire, ?_, fun _ => ⟨p, n, hcur, hlt, rfl, hsub'⟩⟩
      exact (List.sublist_append_left _ _).trans hsub'
    · refine ⟨l.done.map Packet.data ++ [p.data], [], ?_, hsub', fun h => absurd rfl h⟩
      rw [hwire, Option.elim_some, heq, List.take_length]
      simp

end GpsBase.Lib.Wire
