import Mathlib.Data.List.Induction
import Mathlib.Data.Int.Order.Basic
import Mathlib.Tactic.Common

/-! # Retries

A client that connects and sends again and again, seen from outside: its attempts, its failures and
the sends that went through, with marks of a kind `ρ` between them. `tally` counts the failures since
the last mark that counts as fresh, and since sends on one connection last stayed successful for
`streak`. `Spaced` asks that two attempts in a row are as far apart as the failures counted at the
second one ask for. -/

namespace GpsBase.Lib.Retries

/-- What happened, with the time where it matters. -/
inductive Event (ρ : Type)
  | attempt (t : ℤ)
  | failed
  | sent (t : ℤ)
  | mark (r : ρ)
  deriving DecidableEq

/-- The failures counted, the first send of the streak under way, and the last attempt. -/
structure Tally where
  failures : ℕ := 0
  since : Option ℤ := none
  last : Option ℤ := none

variable {ρ : Type} (fresh : ρ → Bool) (streak : ℤ) (owed : ℕ → ℤ)

/-- The tally after one more event. -/
def Tally.note (a : Tally) : Event ρ → Tally
  | .attempt t => { a with since := none, last := some t }
  | .failed => { a with failures := a.failures + 1, since := none }
  | .sent t => { a with failures := if streak ≤ t - a.since.getD t then 0 else a.failures
                        since := some (a.since.getD t) }
  | .mark r => if fresh r then {} else a

def tally (h : List (Event ρ)) : Tally := h.foldl (Tally.note fresh streak) {}

/-- Neither an attempt nor a fresh mark. -/
def Event.Quiet : Event ρ → Prop
  | .attempt _ => False
  | .mark r => fresh r = false
  | _ => True

/-- **Two attempts in a row**, no fresh mark between them, are as far apart as is owed. -/
def Spaced (h : List (Event ρ)) : Prop :=
  ∀ past t₁ mid t₂ rest, h = past ++ Event.attempt t₁ :: mid ++ Event.attempt t₂ :: rest →
    (∀ e ∈ mid, e.Quiet fresh) →
      owed (tally fresh streak (past ++ Event.attempt t₁ :: mid)).failures ≤ t₂ - t₁

/-- **A connection whose sends stay within one streak** does not lower the count. -/
def KeepsCount (h : List (Event ρ)) : Prop :=
  ∀ past t mid rest, h = past ++ Event.attempt t :: mid ++ rest → (∀ e ∈ mid, e.Quiet fresh) →
    (∀ a b, .sent a ∈ mid → .sent b ∈ mid → b - a < streak) →
    (tally fresh streak past).failures ≤ (tally fresh streak (past ++ Event.attempt t :: mid)).failures

variable {fresh streak owed}

theorem tally_concat (h : List (Event ρ)) (e : Event ρ) :
    tally fresh streak (h ++ [e]) = (tally fresh streak h).note fresh streak e := by
  simp only [tally, List.foldl_append, List.foldl_cons, List.foldl_nil]

theorem last_of_quiet (past : List (Event ρ)) (t : ℤ) {mid : List (Event ρ)}
    (hmid : ∀ e ∈ mid, e.Quiet fresh) :
    (tally fresh streak (past ++ Event.attempt t :: mid)).last = some t := by
  induction mid using List.reverseRecOn with
  | nil => rw [tally_concat]; rfl
  | append_singleton mid e ih =>
    have hlast := ih fun e he => hmid e (List.mem_append_left _ he)
    have hquiet := hmid e (List.mem_append_right _ (List.mem_singleton_self e))
    rw [← List.cons_append, ← List.append_assoc, tally_concat]
    rcases e with t' | _ | t' | r
    · exact hquiet.elim
    · exact hlast
    · exact hlast
    · have hr : fresh r = false := hquiet
      simpa [Tally.note, hr] using hlast

theorem spaced_nil : Spaced fresh streak owed [] := by
  intro past t₁ mid t₂ rest h
  simp at h

/-- An event keeps the spacing when an attempt comes as late as is owed. -/
theorem Spaced.concat {h : List (Event ρ)} (hs : Spaced fresh streak owed h) {e : Event ρ}
    (he : ∀ t₂, e = .attempt t₂ → ∀ t₁, (tally fresh streak h).last = some t₁ →
      owed (tally fresh streak h).failures ≤ t₂ - t₁) :
    Spaced fresh streak owed (h ++ [e]) := by
  intro past t₁ mid t₂ rest heq hmid
  rcases List.eq_nil_or_concat rest with rfl | ⟨rest, x, rfl⟩
  · obtain ⟨rfl, hlast⟩ := List.append_inj' heq rfl
    exact he t₂ (List.cons.inj hlast).1 t₁ (last_of_quiet past t₁ hmid)
  · have hsplit : h ++ [e] = (past ++ Event.attempt t₁ :: mid ++ Event.attempt t₂ :: rest) ++ [x] := by
      rw [heq]
      simp only [List.append_assoc, List.cons_append, List.concat_eq_append]
    exact hs past t₁ mid t₂ rest (List.append_inj' hsplit rfl).1 hmid

/-- While the sends of a connection stay within one streak, the streak began with one of them and the
count is not lowered. -/
theorem tally_within (past : List (Event ρ)) (t : ℤ) {mid : List (Event ρ)}
    (hmid : ∀ e ∈ mid, e.Quiet fresh)
    (hsent : ∀ a b, .sent a ∈ mid → .sent b ∈ mid → b - a < streak) :
    (∀ a, (tally fresh streak (past ++ Event.attempt t :: mid)).since = some a → .sent a ∈ mid) ∧
      (tally fresh streak past).failures ≤
        (tally fresh streak (past ++ Event.attempt t :: mid)).failures := by
  induction mid using List.reverseRecOn with
  | nil =>
    rw [tally_concat]
    exact ⟨fun a ha => by simp [Tally.note] at ha, Nat.le_refl _⟩
  | append_singleton mid e ih =>
    have hin : ∀ {e'}, e' ∈ mid → e' ∈ mid ++ [e] := List.mem_append_left _
    have hself : e ∈ mid ++ [e] := List.mem_append_right _ (List.mem_singleton_self e)
    obtain ⟨hsince, hle⟩ := ih (fun e he => hmid e (hin he))
      fun a b ha hb => hsent a b (hin ha) (hin hb)
    have hquiet := hmid e hself
    rw [← List.cons_append, ← List.append_assoc, tally_concat]
    rcases e with t' | _ | t' | r
    · exact hquiet.elim
    · exact ⟨fun a ha => by simp [Tally.note] at ha, Nat.le_succ_of_le hle⟩
    · -- the streak began with `t'` itself or with an earlier send
      have hfirst : .sent ((tally fresh streak (past ++ Event.attempt t :: mid)).since.getD t') ∈
          mid ++ [Event.sent (ρ := ρ) t'] := by
        rcases h : (tally fresh streak (past ++ Event.attempt t :: mid)).since with _ | a
        · exact hself
        · exact hin (hsince a h)
      have hshort := hsent _ _ hfirst hself
      refine ⟨fun a ha => ?_, ?_⟩
      · obtain rfl := Option.some.inj ha
        exact hfirst
      · simp only [Tally.note]
        rwa [if_neg (by omega)]
    · have hr : fresh r = false := hquiet
      simp only [Tally.note, hr, Bool.false_eq_true, if_false]
      exact ⟨fun a ha => hin (hsince a ha), hle⟩

theorem keepsCount (h : List (Event ρ)) : KeepsCount fresh streak h :=
  fun past t _ _ _ hmid hsent => (tally_within past t hmid hsent).2

end GpsBase.Lib.Retries
