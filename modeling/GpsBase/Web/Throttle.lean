import Mathlib.Data.List.DropRight
import GpsBase.Lib.Throttle
import GpsBase.Web.Session

/-! # The delay of the login

How often passwords are compared, told by the record of the server. After the third wrong password since
a session began, and after each one that follows, none is compared for a while, and in an interval without
a new session at most six are compared and one more in each half minute (`throttled`). The wrong passwords
are counted in 32 bits: the delay is lost once when the count comes back to zero (`throttle_wraps`). -/

namespace GpsBase.Web.Throttle

open GpsBase.Lib.CText GpsBase.Lib.Machine GpsBase.Lib.Throttle GpsBase.Settings.Records
open GpsBase.Web.Admin GpsBase.Web.Forms GpsBase.Web.Session

/-! ### The record -/

/-- No session starts here. -/
def notIssued : Mark → Bool
  | .issued _ _ => false
  | _ => true

def comparedAt : Mark → Option ℤ
  | .compared _ time => some time
  | _ => none

/-- The time of a comparison or of the start of a session. -/
def timed : Mark → Option ℤ
  | .compared _ time => some time
  | .issued _ time => some time
  | _ => none

def isWrong : Mark → Bool
  | .compared right _ => !right
  | _ => false

/-- The record since the last session began. -/
def since (marks : List Mark) : List Mark := marks.rtakeWhile notIssued

/-- The times of the comparisons since the last session began. -/
def tried (marks : List Mark) : List ℤ := (since marks).filterMap comparedAt

/-- The wrong passwords since the last session began. -/
def wrongs (marks : List Mark) : ℕ := (since marks).countP isWrong

def comparisons (marks : List Mark) (u v : ℤ) : ℕ :=
  ((marks.filterMap comparedAt).filter fun t => u ≤ t ∧ t ≤ v).length

/-- The delay after the `n`-th comparison. -/
def delay (n : ℕ) : ℤ := if 3 ≤ n then min (kLoginBaseDelayUs * (n - 2 : ℕ)) kLoginMaxDelayUs else 0

/-- What the first delays save against the longest. -/
def credit : ℕ → ℤ
  | 0 => 165 * 1000000
  | 1 => 135 * 1000000
  | 2 => 105 * 1000000
  | 3 => 75 * 1000000
  | 4 => 50 * 1000000
  | 5 => 30 * 1000000
  | 6 => 15 * 1000000
  | 7 => 5 * 1000000
  | _ => 0

/-- The comparisons are spaced wherever the record is cut. -/
def Spacing (marks : List Mark) : Prop := ∀ part, part <+: marks → Spaced delay (tried part)

/-- A session starts only after a right password. -/
def Earned (marks : List Mark) : Prop :=
  ∀ before token time, before ++ [Mark.issued token time] <+: marks →
    ∃ earlier time', before = earlier ++ [Mark.compared true time']

/-- The record is in the order of time. -/
def Timed (marks : List Mark) : Prop := (marks.filterMap timed).Pairwise (· ≤ ·)

/-- Fewer than `2 ^ 32` wrong passwords come without a session between them. -/
def Few (marks : List Mark) : Prop := ∀ part, part <+: marks → wrongs part < 2 ^ 32

/-! ### One more mark -/

theorem delay_nonneg (n : ℕ) : 0 ≤ delay n := by
  unfold delay kLoginBaseDelayUs kLoginMaxDelayUs
  split_ifs <;> omega

theorem delay_mono {n m : ℕ} (h : n ≤ m) : delay n ≤ delay m := by
  unfold delay kLoginBaseDelayUs kLoginMaxDelayUs
  split_ifs <;> omega

theorem delay_credit (n : ℕ) : kLoginMaxDelayUs + credit (n + 1) ≤ delay n + credit n := by
  unfold delay kLoginBaseDelayUs kLoginMaxDelayUs
  match n with
  | 0 | 1 | 2 | 3 | 4 | 5 | 6 | 7 => decide
  | n + 8 =>
    rw [if_pos (by omega), show credit (n + 8) = 0 from rfl, show credit (n + 8 + 1) = 0 from rfl]
    omega

theorem credit_bounds (n : ℕ) : 0 ≤ credit n ∧ credit (n + 1) ≤ 135 * 1000000 := by
  match n with
  | 0 | 1 | 2 | 3 | 4 | 5 | 6 | 7 => decide
  | n + 8 => exact ⟨le_refl 0, show (0 : ℤ) ≤ 135 * 1000000 by decide⟩

theorem since_issued (marks : List Mark) (token : List UInt8) (time : ℤ) :
    since (marks ++ [Mark.issued token time]) = [] :=
  List.rtakeWhile_concat_neg _ _ _ Bool.false_ne_true

theorem since_concat (marks : List Mark) {m : Mark} (hm : notIssued m = true) :
    since (marks ++ [m]) = since marks ++ [m] :=
  List.rtakeWhile_concat_pos _ _ _ hm

/-- While no session starts the record since the last start grows. -/
theorem since_append (marks : List Mark) {more : List Mark} (hmore : ∀ m ∈ more, notIssued m = true) :
    since (marks ++ more) = since marks ++ more := by
  induction more using List.reverseRecOn with
  | nil => rw [List.append_nil, List.append_nil]
  | append_singleton more m ih =>
    rw [← List.append_assoc, since_concat _ (hmore m (List.mem_append_right _ List.mem_cons_self)),
      ih fun k hk => hmore k (List.mem_append_left _ hk), List.append_assoc]

theorem tried_append (marks : List Mark) {more : List Mark} (hmore : ∀ m ∈ more, notIssued m = true) :
    tried (marks ++ more) = tried marks ++ more.filterMap comparedAt := by
  unfold tried
  rw [since_append marks hmore, List.filterMap_append]

theorem tried_compared (marks : List Mark) (right : Bool) (time : ℤ) :
    tried (marks ++ [Mark.compared right time]) = tried marks ++ [time] :=
  tried_append marks fun m hm => by
    rw [List.mem_singleton.mp hm]
    rfl

theorem wrongs_concat (marks : List Mark) {m : Mark} (hm : notIssued m = true) :
    wrongs (marks ++ [m]) = wrongs marks + if isWrong m then 1 else 0 := by
  unfold wrongs
  rw [since_concat marks hm, List.countP_append, List.countP_singleton]

theorem wrongs_le (marks : List Mark) : wrongs marks ≤ (tried marks).length := by
  unfold wrongs tried
  rw [List.length_filterMap_eq_countP]
  refine List.countP_mono_left fun m _ hm => ?_
  cases m with
  | compared right time => rfl
  | _ => cases hm

theorem Spacing.concat {marks : List Mark} (h : Spacing marks) {m : Mark}
    (hm : Spaced delay (tried (marks ++ [m]))) : Spacing (marks ++ [m]) := by
  intro part hpart
  rcases List.prefix_concat_iff.mp hpart with rfl | hpart
  · exact hm
  · exact h part hpart

theorem Earned.concat {marks : List Mark} (h : Earned marks) {m : Mark}
    (hm : ∀ token time, m = .issued token time →
      ∃ earlier time', marks = earlier ++ [Mark.compared true time']) :
    Earned (marks ++ [m]) := by
  intro before token time hbefore
  rcases List.prefix_concat_iff.mp hbefore with heq | hbefore
  · obtain ⟨rfl, hsame⟩ := List.append_inj' heq rfl
    exact hm token time (List.cons.inj hsame).1.symm
  · exact h before token time hbefore

/-! ### The invariant -/

/-- The members tell what the record says of the passwords. -/
structure Inv (a : Server) : Prop where
  counted : (tried a.marks).length = wrongs a.marks
  failed : a.failedLoginCount = wrongs a.marks
  block : 3 ≤ wrongs a.marks → ∀ t, (tried a.marks).getLast? = some t →
    t + delay (wrongs a.marks) ≤ a.loginBlockUntilUs
  spacing : Spacing a.marks
  earned : Earned a.marks

theorem inv_booted {a : Server} (h : Booted a) : Inv a := by
  refine ⟨?_, ?_, ?_, ?_, ?_⟩
  · rw [h.marks]
    rfl
  · rw [h.marks, h.failedLogins]
    rfl
  · rw [h.marks]
    exact fun hno => absurd hno (by decide)
  · rw [h.marks]
    intro part hpart
    rw [List.prefix_nil.mp hpart]
    exact spaced_nil
  · rw [h.marks]
    intro before token time hbefore
    exact absurd (List.prefix_nil.mp hbefore) (by simp)

theorem Inv.quiet {a a' : Server} (h : Inv a) {m : Mark} (hmarks : a'.marks = a.marks ++ [m])
    (hfailed : a'.failedLoginCount = a.failedLoginCount)
    (hblock : a'.loginBlockUntilUs = a.loginBlockUntilUs) (hm : timed m = none) : Inv a' := by
  have hissued : notIssued m = true := by
    cases m with
    | issued token time => cases hm
    | _ => rfl
  have hcompared : comparedAt m = none := by
    cases m with
    | compared right time => cases hm
    | _ => rfl
  have hwrong : isWrong m = false := by
    cases m with
    | compared right time => cases hm
    | _ => rfl
  have htried : tried (a.marks ++ [m]) = tried a.marks := by
    rw [tried_append a.marks fun k hk => by rw [List.mem_singleton.mp hk]; exact hissued,
      List.filterMap_cons_none hcompared, List.filterMap_nil, List.append_nil]
  have hwrongs : wrongs (a.marks ++ [m]) = wrongs a.marks := by
    rw [wrongs_concat _ hissued, hwrong]
    rfl
  refine ⟨?_, ?_, ?_, ?_, ?_⟩
  · rw [hmarks, htried, hwrongs]
    exact h.counted
  · rw [hmarks, hwrongs, hfailed]
    exact h.failed
  · rw [hmarks, htried, hwrongs, hblock]
    exact h.block
  · rw [hmarks]
    refine h.spacing.concat ?_
    rw [htried]
    exact h.spacing a.marks List.prefix_rfl
  · rw [hmarks]
    refine h.earned.concat fun token time heq => ?_
    rw [heq] at hissued
    cases hissued

theorem Inv.compared {a : Server} (h : Inv a) {right : Bool} {now : ℤ}
    (hnow : a.loginBlockUntilUs ≤ now) (htimed : Timed (a.marks ++ [Mark.compared right now])) :
    Spacing (a.marks ++ [Mark.compared right now]) := by
  refine h.spacing.concat ?_
  rw [tried_compared]
  refine (h.spacing a.marks List.prefix_rfl).concat fun t ht => ?_
  rw [h.counted]
  by_cases hmany : 3 ≤ wrongs a.marks
  · exact (h.block hmany t ht).trans hnow
  · have hlater : t ≤ now := by
      unfold Timed at htimed
      rw [List.filterMap_append, List.pairwise_append] at htimed
      obtain ⟨m, hm, hat⟩ := List.mem_filterMap.mp (List.mem_of_getLast? ht)
      refine htimed.2.2 t (List.mem_filterMap.mpr ⟨m, (List.rtakeWhile_suffix _ _).subset hm, ?_⟩) now
        List.mem_cons_self
      cases m with
      | compared right' time => exact hat
      | _ => cases hat
    rw [delay, if_neg hmany]
    omega

theorem Inv.fail {a : Server} (h : Inv a) {now : ℤ} (hnow : a.loginBlockUntilUs ≤ now)
    (htimed : Timed (a.marks ++ [Mark.compared false now]))
    (hfew : Few (a.marks ++ [Mark.compared false now])) :
    Inv ((a.compare false now).fail now) := by
  have hwrongs : wrongs (a.marks ++ [Mark.compared false now]) = wrongs a.marks + 1 :=
    wrongs_concat _ rfl
  have hcount : (a.failedLoginCount + 1) % 2 ^ 32 = wrongs a.marks + 1 := by
    have hlt := hfew _ List.prefix_rfl
    rw [hwrongs] at hlt
    rw [h.failed, Nat.mod_eq_of_lt hlt]
  refine ⟨?_, ?_, ?_, h.compared hnow htimed, h.earned.concat fun _ _ heq => nomatch heq⟩
  · show (tried (a.marks ++ [Mark.compared false now])).length =
      wrongs (a.marks ++ [Mark.compared false now])
    rw [tried_compared, hwrongs, List.length_append, h.counted]
    rfl
  · show (a.failedLoginCount + 1) % 2 ^ 32 = wrongs (a.marks ++ [Mark.compared false now])
    rw [hwrongs, hcount]
  · show 3 ≤ wrongs (a.marks ++ [Mark.compared false now]) → ∀ t,
      (tried (a.marks ++ [Mark.compared false now])).getLast? = some t →
        t + delay (wrongs (a.marks ++ [Mark.compared false now])) ≤
          if (a.failedLoginCount + 1) % 2 ^ 32 ≥ 3 then
            now + min (kLoginBaseDelayUs * ((a.failedLoginCount + 1) % 2 ^ 32 - 2 : ℕ)) kLoginMaxDelayUs
          else a.loginBlockUntilUs
    rw [tried_compared, hwrongs, hcount, List.getLast?_concat]
    intro hmany t ht
    cases ht
    rw [if_pos hmany, delay, if_pos hmany]

theorem Inv.login {a : Server} (h : Inv a) {r : Request} (hnow : a.loginBlockUntilUs ≤ r.now)
    (htimed : Timed (a.marks ++ [Mark.compared true r.now])) :
    Inv ((a.compare true r.now).startSessionCookie r).1 := by
  have htried : tried (a.marks ++ [Mark.compared true r.now] ++
      [Mark.issued (tokenText r.random) r.issuedAt]) = [] := by
    rw [tried, since_issued]
    rfl
  have hwrongs : wrongs (a.marks ++ [Mark.compared true r.now] ++
      [Mark.issued (tokenText r.random) r.issuedAt]) = 0 := by
    rw [wrongs, since_issued]
    rfl
  refine ⟨?_, ?_, ?_, ?_, ?_⟩
  · exact (congrArg List.length htried).trans hwrongs.symm
  · exact hwrongs.symm
  · exact fun hmany => absurd (hwrongs ▸ hmany) (by decide)
  · refine (h.compared hnow htimed).concat ?_
    rw [htried]
    exact spaced_nil
  · have hearned : Earned (a.marks ++ [Mark.compared true r.now]) :=
      h.earned.concat fun _ _ heq => nomatch heq
    exact hearned.concat fun _ _ _ => ⟨a.marks, r.now, rfl⟩

/-! ### Runs -/

def Posted : Event → Prop
  | .request .setup _ => False
  | _ => True

/-- The times of a login: of the request, and of the session that may start. -/
def times : Event → List ℤ
  | .request .login r => [r.now, r.issuedAt]
  | _ => []

theorem timed_step {a a' : Server} {e : Event} (he : Posted e) (hstep : step a e = some a') :
    ∃ more, a'.marks = a.marks ++ more ∧ (more.filterMap timed).Sublist (times e) := by
  have hsame : ∃ more, a.marks = a.marks ++ more ∧ (more.filterMap timed).Sublist (times e) :=
    ⟨[], (List.append_nil _).symm, List.nil_sublist _⟩
  cases e with
  | others storage =>
    cases hstep
    exact hsame
  | request handler r =>
    cases handler with
    | guarded =>
      cases hstep
      rcases authorize_cases a r with ⟨-, -, -, -, -, heq⟩ | ⟨-, -, -, heq⟩ | ⟨-, heq⟩
      · exact ⟨_, congrArg Server.marks heq, List.nil_sublist _⟩
      · exact ⟨_, congrArg Server.marks heq, List.nil_sublist _⟩
      · rw [heq]
        exact hsame
    | login =>
      cases hstep
      rcases loginPost_cases a r with ⟨-, heq⟩ | ⟨-, -, heq⟩ | ⟨-, -, heq⟩
      · rw [heq]
        exact hsame
      · refine ⟨[.compared true r.now, .issued (tokenText r.random) r.issuedAt], ?_, List.Sublist.refl _⟩
        exact (congrArg Server.marks heq).trans (List.append_assoc _ _ _)
      · exact ⟨[.compared false r.now], congrArg Server.marks heq,
          List.singleton_sublist.mpr List.mem_cons_self⟩
    | logout =>
      cases hstep
      exact ⟨[.cleared], rfl, List.nil_sublist _⟩
    | setup => exact absurd he id

theorem timed_run {events : List Event} (hposted : ∀ e ∈ events, Posted e) {a a' : Server}
    (hrun : run step a events = some a') :
    ∃ more, a'.marks = a.marks ++ more ∧ (more.filterMap timed).Sublist (events.flatMap times) := by
  induction events generalizing a with
  | nil =>
    cases hrun
    exact ⟨[], (List.append_nil _).symm, List.Sublist.refl _⟩
  | cons e events ih =>
    obtain ⟨b, hstep, hrun⟩ := run_cons_eq_some.mp hrun
    obtain ⟨first, hfirst, hsub⟩ := timed_step (hposted e List.mem_cons_self) hstep
    obtain ⟨more, hmore, hsubs⟩ := ih (fun k hk => hposted k (List.mem_cons_of_mem e hk)) hrun
    refine ⟨first ++ more, ?_, ?_⟩
    · rw [hmore, hfirst, List.append_assoc]
    · rw [List.filterMap_append, List.flatMap_cons]
      exact hsub.append hsubs

theorem Timed.of_append {marks more : List Mark} (h : Timed (marks ++ more)) : Timed marks := by
  unfold Timed at h
  rw [List.filterMap_append] at h
  exact (List.pairwise_append.mp h).1

theorem Few.of_append {marks more : List Mark} (h : Few (marks ++ more)) : Few marks :=
  fun part hpart => h part (hpart.trans (List.prefix_append _ _))

theorem inv_step {a a' : Server} (h : Inv a) {e : Event} (he : Posted e) (hstep : step a e = some a')
    (htimed : Timed a'.marks) (hfew : Few a'.marks) : Inv a' := by
  cases e with
  | others storage =>
    cases hstep
    exact ⟨h.counted, h.failed, h.block, h.spacing, h.earned⟩
  | request handler r =>
    cases handler with
    | guarded =>
      cases hstep
      rcases authorize_cases a r with ⟨-, -, -, -, -, heq⟩ | ⟨-, -, -, heq⟩ | ⟨-, heq⟩
      · rw [heq]
        exact h.quiet rfl rfl rfl rfl
      · rw [heq]
        exact h.quiet rfl rfl rfl rfl
      · rw [heq]
        exact h
    | login =>
      cases hstep
      rcases loginPost_cases a r with ⟨-, heq⟩ | ⟨hread, -, heq⟩ | ⟨hread, -, heq⟩
      · rw [heq]
        exact h
      · have hnow : a.loginBlockUntilUs ≤ r.now := not_lt.mp (not_or.mp hread).2
        rw [heq] at htimed ⊢
        exact h.login hnow htimed.of_append
      · have hnow : a.loginBlockUntilUs ≤ r.now := not_lt.mp (not_or.mp hread).2
        rw [heq] at htimed hfew ⊢
        exact h.fail hnow htimed hfew
    | logout =>
      cases hstep
      exact h.quiet rfl rfl rfl rfl
    | setup => exact absurd he id

theorem inv_run {events : List Event} (hposted : ∀ e ∈ events, Posted e) {s a : Server} (h : Inv s)
    (hrun : run step s events = some a) (htimed : Timed a.marks) (hfew : Few a.marks) : Inv a := by
  induction events generalizing s with
  | nil =>
    cases hrun
    exact h
  | cons e events ih =>
    obtain ⟨b, hstep, hrun⟩ := run_cons_eq_some.mp hrun
    have hrest : ∀ k ∈ events, Posted k := fun k hk => hposted k (List.mem_cons_of_mem e hk)
    obtain ⟨more, hmore, -⟩ := timed_run hrest hrun
    refine ih hrest (inv_step h (hposted e List.mem_cons_self) hstep ?_ ?_) hrun
    · exact Timed.of_append (hmore ▸ htimed)
    · exact Few.of_append (hmore ▸ hfew)

/-! ### The delay and the interval -/

/-- No password is compared during the delay, if no session starts. -/
theorem Spacing.wait {marks : List Mark} (h : Spacing marks) {past mid rest : List Mark} {wrong right : Bool}
    {t t' : ℤ} (heq : marks = past ++ Mark.compared wrong t :: mid ++ Mark.compared right t' :: rest)
    (hmid : ∀ m ∈ mid, notIssued m = true) :
    t + delay (wrongs (past ++ [Mark.compared wrong t])) ≤ t' := by
  have hspaced := h (past ++ (Mark.compared wrong t :: mid ++ [Mark.compared right t'])) (by
    rw [heq]
    exact ⟨rest, by simp⟩)
  rw [tried_append past (by
    intro m hm
    rcases List.mem_append.mp hm with hm | hm
    · rcases List.mem_cons.mp hm with rfl | hm
      · rfl
      · exact hmid m hm
    · rw [List.mem_singleton.mp hm]
      rfl), List.filterMap_append, List.filterMap_cons_some
    (show comparedAt (.compared wrong t) = some t from rfl), ← List.append_assoc] at hspaced
  have hlater := hspaced.later delay_nonneg
  have hmono : delay (wrongs (past ++ [Mark.compared wrong t])) ≤ delay ((tried past).length + 1) := by
    refine delay_mono ((wrongs_le _).trans ?_)
    rw [tried_compared, List.length_append]
    rfl
  omega

theorem first_issued {mid : List Mark} (h : ¬ ∀ m ∈ mid, notIssued m = true) :
    ∃ first token s more, mid = first ++ Mark.issued token s :: more ∧ ∀ m ∈ first, notIssued m = true := by
  obtain ⟨m, hm⟩ := not_forall.mp h
  obtain ⟨hm, hissued⟩ := Classical.not_imp.mp hm
  have hfound : (mid.find? fun m => !notIssued m).isSome = true :=
    List.find?_isSome.mpr ⟨m, hm, by simpa using hissued⟩
  obtain ⟨k, hfind⟩ := Option.isSome_iff_exists.mp hfound
  obtain ⟨hk, first, more, heq, hfirst⟩ := List.find?_eq_some_iff_append.mp hfind
  cases k with
  | issued token s => exact ⟨first, token, s, more, heq, fun j hj => by simpa using hfirst j hj⟩
  | _ => exact absurd hk Bool.false_ne_true

/-- **No password is compared during the delay.** -/
theorem wait {marks : List Mark} (hspacing : Spacing marks) (hearned : Earned marks) (htimed : Timed marks)
    {past mid rest : List Mark} {right : Bool} {t t' : ℤ}
    (heq : marks = past ++ Mark.compared false t :: mid ++ Mark.compared right t' :: rest) :
    t + delay (wrongs (past ++ [Mark.compared false t])) ≤ t' := by
  by_cases hmid : ∀ m ∈ mid, notIssued m = true
  · exact hspacing.wait heq hmid
  · -- a right password comes before the first session that starts
    obtain ⟨first, token, s, more, rfl, hfirst⟩ := first_issued hmid
    obtain ⟨earlier, s', hlast⟩ := hearned (past ++ Mark.compared false t :: first) token s (by
      rw [heq]
      exact ⟨more ++ Mark.compared right t' :: rest, by simp⟩)
    rcases List.eq_nil_or_concat first with rfl | ⟨first, k, rfl⟩
    · cases (List.append_inj' hlast rfl).2
    · rw [List.concat_eq_append] at heq hfirst hlast
      rw [← List.cons_append, ← List.append_assoc] at hlast
      obtain ⟨-, hk⟩ := List.append_inj' hlast rfl
      obtain rfl := (List.cons.inj hk).1
      have hsplit : marks = past ++ Mark.compared false t :: first ++
          Mark.compared true s' :: (Mark.issued token s :: more ++ Mark.compared right t' :: rest) := by
        rw [heq]
        simp only [List.append_assoc, List.cons_append, List.nil_append]
      have hwait := hspacing.wait hsplit fun j hj => hfirst j (List.mem_append_left _ hj)
      have hlater : s' ≤ t' := by
        unfold Timed at htimed
        rw [hsplit, List.filterMap_append, List.pairwise_append,
          List.filterMap_cons_some (show timed (.compared true s') = some s' from rfl),
          List.pairwise_cons] at htimed
        exact htimed.2.1.1 t' (List.mem_filterMap.mpr
          ⟨.compared right t', List.mem_append_right _ List.mem_cons_self, rfl⟩)
      exact hwait.trans hlater

theorem interval {marks : List Mark} (hspacing : Spacing marks) (htimed : Timed marks) {u v : ℤ}
    (huv : u ≤ v) (hnone : ∀ token t, .issued token t ∈ marks → t < u ∨ v < t) :
    kLoginMaxDelayUs * comparisons marks u v ≤ 6 * kLoginMaxDelayUs + (v - u) := by
  obtain ⟨early, mid, late, rfl, hearly, hmid, hlate⟩ := window u v htimed
  have htimes : ∀ {m : Mark} {t : ℤ}, comparedAt m = some t → timed m = some t := by
    intro m t hm
    cases m with
    | compared right time => exact hm
    | _ => cases hm
  have hcount : comparisons (early ++ mid ++ late) u v = (mid.filterMap comparedAt).length := by
    unfold comparisons
    rw [List.filterMap_append, List.filterMap_append, List.filter_append, List.filter_append,
      List.filter_eq_nil_iff.mpr, List.filter_eq_self.mpr, List.filter_eq_nil_iff.mpr, List.nil_append,
      List.append_nil]
    · intro t ht
      obtain ⟨m, hm, ht⟩ := List.mem_filterMap.mp ht
      have := hlate m hm t (htimes ht)
      simp only [decide_eq_true_eq, not_and, not_le]
      exact fun _ => this
    · intro t ht
      obtain ⟨m, hm, ht⟩ := List.mem_filterMap.mp ht
      exact decide_eq_true (hmid m hm t (htimes ht))
    · intro t ht
      obtain ⟨m, hm, ht⟩ := List.mem_filterMap.mp ht
      have := hearly m hm t (htimes ht)
      simp only [decide_eq_true_eq, not_and, not_le]
      intro hle
      omega
  have hissued : ∀ m ∈ mid, notIssued m = true := by
    intro m hm
    cases m with
    | issued token t =>
      have hin := hmid _ hm t rfl
      have hout := hnone token t (List.mem_append_left _ (List.mem_append_right _ hm))
      omega
    | _ => rfl
  have hspaced := hspacing (early ++ mid) (List.prefix_append _ _)
  rw [tried_append early hissued] at hspaced
  rw [hcount]
  unfold kLoginMaxDelayUs
  rcases hmids : mid.filterMap comparedAt with _ | ⟨s, more⟩
  · rw [List.length_nil]
    omega
  · have hin : ∀ t ∈ s :: more, u ≤ t ∧ t ≤ v := by
      intro t ht
      rw [← hmids] at ht
      obtain ⟨m, hm, ht⟩ := List.mem_filterMap.mp ht
      exact hmid m hm t (htimes ht)
    rw [hmids] at hspaced
    obtain ⟨t, hlast⟩ := Option.isSome_iff_exists.mp (List.getLast?_isSome.mpr (List.cons_ne_nil s more))
    have hle := hspaced.length_le delay_credit hlast
    unfold kLoginMaxDelayUs at hle
    have hs := hin s List.mem_cons_self
    have ht := hin t (List.mem_of_getLast? hlast)
    have hmost := (credit_bounds (tried early).length).2
    have hleast := (credit_bounds ((tried early).length + 1 + more.length)).1
    rw [List.length_cons]
    omega

/-- **The login is throttled**, as long as fewer than `2 ^ 32` wrong passwords come without a session
between them: after the `n`-th wrong one, from the third on, no password is compared for `5 * (n - 2)` and
at most 30 seconds, and in an interval in which no session starts at most six are compared and one more
for each 30 seconds. -/
theorem throttled {s a : Server} (hboot : Booted s) {events : List Event}
    (hposted : ∀ e ∈ events, Posted e) (htimes : (events.flatMap times).Pairwise (· ≤ ·))
    (hrun : run step s events = some a) (hfew : Few a.marks) :
    (∀ past t mid right t' rest,
      a.marks = past ++ Mark.compared false t :: mid ++ Mark.compared right t' :: rest →
      3 ≤ wrongs (past ++ [Mark.compared false t]) →
        t + min (5 * (wrongs (past ++ [Mark.compared false t]) - 2 : ℕ)) 30 * 1000000 ≤ t') ∧
    ∀ u v, u ≤ v → (∀ token t, .issued token t ∈ a.marks → t < u ∨ v < t) →
      30 * 1000000 * (comparisons a.marks u v : ℤ) ≤ 6 * (30 * 1000000) + (v - u) := by
  have htimed : Timed a.marks := by
    obtain ⟨more, hmore, hsub⟩ := timed_run hposted hrun
    rw [hboot.marks, List.nil_append] at hmore
    exact hmore ▸ htimes.sublist hsub
  have hinv : Inv a := inv_run hposted (inv_booted hboot) hrun htimed hfew
  refine ⟨fun past t mid right t' rest heq hmany => ?_, fun u v huv hnone => ?_⟩
  · have hwait := wait hinv.spacing hinv.earned htimed heq
    rw [delay, if_pos hmany] at hwait
    unfold kLoginBaseDelayUs kLoginMaxDelayUs at hwait
    omega
  · exact interval hinv.spacing htimed huv hnone

theorem few_of_length {marks : List Mark} (h : marks.length < 2 ^ 32) : Few marks := by
  intro part hpart
  refine lt_of_le_of_lt ?_ (lt_of_le_of_lt hpart.length_le h)
  exact (List.countP_le_length).trans (List.rtakeWhile_suffix _ _).length_le

def locked : Server := { blank with storage := (blank.storage.saveAdminPassword (ascii "correct horse")).1 }

def guess (now : ℤ) : Event := Session.login "guess" now fun _ => 0

/-- Three wrong passwords at once, one during the delay, and one after it. -/
def guesses : List Event := [guess 1000000, guess 1000000, guess 1000000, guess 2000000, guess 6000000]

theorem booted_locked : Booted locked := ⟨rfl, rfl, rfl, rfl, rfl⟩

theorem throttled_guesses :
    ∃ a, run step locked guesses = some a ∧
      comparisons a.marks 1000000 6000000 = 4 ∧
      (∀ past t mid right t' rest,
        a.marks = past ++ Mark.compared false t :: mid ++ Mark.compared right t' :: rest →
        3 ≤ wrongs (past ++ [Mark.compared false t]) →
          t + min (5 * (wrongs (past ++ [Mark.compared false t]) - 2 : ℕ)) 30 * 1000000 ≤ t') ∧
      ∀ u v, u ≤ v → (∀ token t, .issued token t ∈ a.marks → t < u ∨ v < t) →
        30 * 1000000 * (comparisons a.marks u v : ℤ) ≤ 6 * (30 * 1000000) + (v - u) := by
  have hfinal : (run step locked guesses).map Server.marks = some [.compared false 1000000,
      .compared false 1000000, .compared false 1000000, .compared false 6000000] := by
    decide +kernel
  obtain ⟨a, hrun, hmarks⟩ := Option.map_eq_some_iff.mp hfinal
  refine ⟨a, hrun, ?_, throttled booted_locked ?_ (by decide) hrun (few_of_length ?_)⟩
  · rw [hmarks]
    decide
  · intro e he
    simp only [guesses, List.mem_cons, List.not_mem_nil, or_false] at he
    rcases he with rfl | rfl | rfl | rfl | rfl <;> exact trivial
  · rw [hmarks]
    decide

/-! ### The counter -/

/-- Wrong passwords, one every half minute. -/
def posts (n : ℕ) : List Event := (List.range n).map fun i : ℕ => guess (30000000 * i)

/-- When the counter comes back to zero. -/
def wrapTime : ℤ := 30000000 * (2 ^ 32 - 1 : ℕ)

/-- Wrong passwords until the counter comes back to zero, and one more at once. -/
def wrapping : List Event := posts (2 ^ 32 - 1) ++ [guess wrapTime, guess wrapTime]

theorem locked_answers :
    locked.storage.loadAdminPassword.set = true ∧
      locked.passwordMatches (formValue (readBody 512 (ascii "user=admin&password=" ++ ascii "guess")) "user")
        (formValue (readBody 512 (ascii "user=admin&password=" ++ ascii "guess")) "password") = false := by
  decide +kernel

theorem step_guess {a : Server} (ha : a.storage = locked.storage) {now : ℤ}
    (hnow : a.loginBlockUntilUs ≤ now) : step a (guess now) = some ((a.compare false now).fail now) := by
  set r : Request := ⟨[], ascii "user=admin&password=" ++ ascii "guess", now, now, fun _ => 0⟩ with hr
  have hset : a.storage.loadAdminPassword.set = true := by
    rw [ha]
    exact locked_answers.1
  rcases loginPost_cases a r with ⟨hread, -⟩ | ⟨-, hright, -⟩ | ⟨-, -, heq⟩
  · rcases hread with hread | hread
    · rw [hset] at hread
      cases hread
    · exact absurd hnow (not_le.mpr hread)
  · rw [right_congr ha] at hright
    exact absurd (locked_answers.2.symm.trans hright) Bool.false_ne_true
  · exact congrArg some heq

theorem wrongs_guesses (time : ℕ → ℤ) (n : ℕ) :
    wrongs ((List.range n).map fun i => .compared false (time i)) = n := by
  induction n with
  | zero => rfl
  | succ n ih =>
    rw [List.range_succ, List.map_append, List.map_singleton, wrongs_concat _ rfl, ih]
    rfl

/-- After `n` wrong passwords, one every half minute. -/
theorem run_posts {n : ℕ} (hn : n < 2 ^ 32) :
    ∃ a, run step locked (posts n) = some a ∧ a.storage = locked.storage ∧ a.failedLoginCount = n ∧
      a.loginBlockUntilUs ≤ 30000000 * n ∧
      a.marks = (List.range n).map fun i : ℕ => .compared false (30000000 * i) := by
  induction n with
  | zero => exact ⟨locked, rfl, rfl, rfl, le_refl 0, rfl⟩
  | succ n ih =>
    obtain ⟨a, hrun, hstorage, hcount, hblock, hmarks⟩ := ih (by omega)
    refine ⟨(a.compare false (30000000 * n)).fail (30000000 * n), ?_, hstorage, ?_, ?_, ?_⟩
    · rw [posts, List.range_succ, List.map_append, run_append, ← posts, hrun, Option.bind_some]
      exact run_cons_eq_some.mpr ⟨_, step_guess hstorage hblock, rfl⟩
    · show (a.failedLoginCount + 1) % 2 ^ 32 = n + 1
      rw [hcount, Nat.mod_eq_of_lt hn]
    · show (if (a.failedLoginCount + 1) % 2 ^ 32 ≥ 3 then 30000000 * (n : ℤ) +
          min (kLoginBaseDelayUs * ((a.failedLoginCount + 1) % 2 ^ 32 - 2 : ℕ)) kLoginMaxDelayUs
        else a.loginBlockUntilUs) ≤ 30000000 * (n + 1 : ℕ)
      unfold kLoginMaxDelayUs
      split_ifs <;> omega
    · show a.marks ++ [Mark.compared false (30000000 * n)] = _
      rw [hmarks, List.range_succ, List.map_append]
      rfl

theorem times_posts (n : ℕ) : ((posts n).flatMap times).Pairwise (· ≤ ·) ∧
    ∀ t ∈ (posts n).flatMap times, t ≤ 30000000 * n := by
  induction n with
  | zero => exact ⟨List.Pairwise.nil, fun _ h => absurd h List.not_mem_nil⟩
  | succ n ih =>
    obtain ⟨hpairs, hle⟩ := ih
    have hsplit : (posts (n + 1)).flatMap times =
        (posts n).flatMap times ++ [30000000 * (n : ℤ), 30000000 * (n : ℤ)] := by
      rw [posts, List.range_succ, List.map_append, List.flatMap_append]
      rfl
    rw [hsplit]
    refine ⟨List.pairwise_append.mpr ⟨hpairs, by simp, fun s hs t ht => ?_⟩, fun t ht => ?_⟩
    · have hs := hle s hs
      simp only [List.mem_cons, List.not_mem_nil, or_false, or_self] at ht
      omega
    · rcases List.mem_append.mp ht with ht | ht
      · have ht := hle t ht
        omega
      · simp only [List.mem_cons, List.not_mem_nil, or_false, or_self] at ht
        omega

/-- **The delay is lost when the counter wraps**: the wrong password number `2 ^ 32` is followed by another
one at once. -/
theorem throttle_wraps :
    Booted locked ∧ (∀ e ∈ wrapping, Posted e) ∧ (wrapping.flatMap times).Pairwise (· ≤ ·) ∧
      ∃ a past, run step locked wrapping = some a ∧
        a.marks = past ++ Mark.compared false wrapTime :: [] ++ Mark.compared false wrapTime :: [] ∧
        wrongs (past ++ [Mark.compared false wrapTime]) = 2 ^ 32 ∧
        ¬ wrapTime + min (5 * (wrongs (past ++ [Mark.compared false wrapTime]) - 2 : ℕ)) 30 * 1000000 ≤
          wrapTime := by
  refine ⟨booted_locked, fun e he => ?_, ?_, ?_⟩
  · rcases List.mem_append.mp he with he | he
    · obtain ⟨i, -, rfl⟩ := List.mem_map.mp he
      exact trivial
    · simp only [List.mem_cons, List.not_mem_nil, or_false, or_self] at he
      rw [he]
      exact trivial
  · obtain ⟨hpairs, hle⟩ := times_posts (2 ^ 32 - 1)
    rw [wrapping, List.flatMap_append]
    refine List.pairwise_append.mpr ⟨hpairs, ?_, fun s hs t ht => ?_⟩
    · exact List.pairwise_replicate (n := 4).mpr (Or.inr le_rfl)
    · have ht : t = wrapTime := List.eq_of_mem_replicate (n := 4) ht
      rw [ht]
      exact hle s hs
  · obtain ⟨a, hrun, hstorage, hcount, hblock, hmarks⟩ := run_posts (n := 2 ^ 32 - 1) (by norm_num)
    set b := (a.compare false wrapTime).fail wrapTime with hb
    have hkept : b.storage = locked.storage := hstorage
    have hzero : b.failedLoginCount = 0 := by
      show (a.failedLoginCount + 1) % 2 ^ 32 = 0
      rw [hcount]
      norm_num
    have hopen : b.loginBlockUntilUs ≤ wrapTime := by
      show (if b.failedLoginCount ≥ 3 then _ else a.loginBlockUntilUs) ≤ wrapTime
      rw [hzero, if_neg (by decide)]
      exact hblock
    have hwrongs : wrongs (a.marks ++ [Mark.compared false wrapTime]) = 2 ^ 32 := by
      rw [wrongs_concat _ rfl, hmarks, wrongs_guesses]
      rfl
    refine ⟨(b.compare false wrapTime).fail wrapTime, a.marks, ?_, ?_, hwrongs, ?_⟩
    · rw [wrapping, run_append, hrun, Option.bind_some]
      exact run_cons_eq_some.mpr ⟨_, step_guess hstorage hblock,
        run_cons_eq_some.mpr ⟨_, step_guess hkept hopen, rfl⟩⟩
    · rfl
    · rw [hwrongs]
      norm_num

end GpsBase.Web.Throttle
