import GpsBase.Lib.Unwinding
import GpsBase.Web.Admin

/-! # The session

What `authorize` answers in any state the server can come to, told by the record of what it did: it lets
a request pass only with the token that was issued last, while nothing has ended that session and no gap
was too long, and a token it has found idle never passes again (`authorize_only_if`).

Requests without the token can end the session only by way of the logout handler, which does not ask for
it, and can keep the administrator from starting one only by way of the delay of the login
(`strangers_harmless`, `strangers_disturb`). -/

namespace GpsBase.Web.Session

open GpsBase.Lib.CText GpsBase.Lib.Machine GpsBase.Lib.Unwinding GpsBase.Settings.Records
open GpsBase.Web.Admin GpsBase.Web.Forms

/-! ### The record -/

/-- The session before ends here. -/
def ends : Mark → Bool
  | .issued _ _ | .cleared | .expired _ => true
  | _ => false

def acceptedAt : Mark → Option ℤ
  | .accepted _ _ time => some time
  | _ => none

/-- The token of a session that starts. -/
def issuedToken : Mark → Option (List UInt8)
  | .issued token _ => some token
  | _ => none

def issued (marks : List Mark) : List (List UInt8) := marks.filterMap issuedToken

/-- **The session of a record**: `token` was issued last, nothing has ended the session since, no gap
between the issue and the authorizations that followed was too long, and the last of them was at
`last`. -/
def Open (marks : List Mark) (token : List UInt8) (last : ℤ) : Prop :=
  ∃ before start since, marks = before ++ Mark.issued token start :: since ∧
    (∀ m ∈ since, ends m = false) ∧
    List.IsChain (fun s t => t - s ≤ kSessionIdleTimeoutUs) (start :: since.filterMap acceptedAt) ∧
    (start :: since.filterMap acceptedAt).getLast? = some last

structure Booted (a : Server) : Prop where
  token : a.sessionToken = []
  lastSeen : a.sessionLastSeenUs = 0
  failedLogins : a.failedLoginCount = 0
  unblocked : a.loginBlockUntilUs = 0
  marks : a.marks = []

theorem open_issued (marks : List Mark) (token : List UInt8) (time : ℤ) :
    Open (marks ++ [Mark.issued token time]) token time :=
  ⟨marks, time, [], rfl, fun _ h => absurd h List.not_mem_nil, List.isChain_singleton _, rfl⟩

theorem Open.append {marks : List Mark} {token : List UInt8} {last : ℤ} (h : Open marks token last)
    {m : Mark} (hends : ends m = false) (hat : acceptedAt m = none) : Open (marks ++ [m]) token last := by
  obtain ⟨before, start, since, rfl, hnone, hchain, hlast⟩ := h
  have hsame : (since ++ [m]).filterMap acceptedAt = since.filterMap acceptedAt := by
    rw [List.filterMap_append, List.filterMap_cons_none hat, List.filterMap_nil, List.append_nil]
  refine ⟨before, start, since ++ [m], List.append_assoc before (.issued token start :: since) [m],
    fun k hk => ?_, ?_, ?_⟩
  · rcases List.mem_append.mp hk with hk | hk
    · exact hnone k hk
    · rw [List.mem_singleton.mp hk]
      exact hends
  · rw [hsame]
    exact hchain
  · rw [hsame]
    exact hlast

theorem Open.accept {marks : List Mark} {token : List UInt8} {last : ℤ} (h : Open marks token last)
    {set : Bool} {header : List UInt8} {time : ℤ} (hgap : time - last ≤ kSessionIdleTimeoutUs) :
    Open (marks ++ [Mark.accepted set header time]) token time := by
  obtain ⟨before, start, since, rfl, hnone, hchain, hlast⟩ := h
  have hmore : (since ++ [Mark.accepted set header time]).filterMap acceptedAt =
      since.filterMap acceptedAt ++ [time] := by
    rw [List.filterMap_append]
    rfl
  refine ⟨before, start, since ++ [Mark.accepted set header time],
    List.append_assoc before (.issued token start :: since) [_], fun k hk => ?_, ?_, ?_⟩
  · rcases List.mem_append.mp hk with hk | hk
    · exact hnone k hk
    · rw [List.mem_singleton.mp hk]
      rfl
  · rw [hmore, ← List.cons_append, List.isChain_append]
    refine ⟨hchain, List.isChain_singleton _, fun s hs t ht => ?_⟩
    rw [hlast, Option.mem_some_iff] at hs
    rw [List.head?_cons, Option.mem_some_iff] at ht
    rw [← hs, ← ht]
    exact hgap
  · rw [hmore, ← List.cons_append, List.getLast?_concat]

theorem Open.mem_issued {marks : List Mark} {token : List UInt8} {last : ℤ} (h : Open marks token last) :
    token ∈ issued marks := by
  obtain ⟨before, start, since, rfl, -⟩ := h
  exact List.mem_filterMap.mpr ⟨.issued token start, List.mem_append_right _ List.mem_cons_self, rfl⟩

/-! ### The invariant -/

/-- The members tell the session of the record, and a token that was found idle had been issued. -/
structure Inv (a : Server) : Prop where
  session : a.sessionToken ≠ [] → Open a.marks a.sessionToken a.sessionLastSeenUs
  expired : ∀ before token, before ++ [Mark.expired token] <+: a.marks → token ∈ issued before

theorem Booted.inv {a : Server} (h : Booted a) : Inv a where
  session hne := absurd h.token hne
  expired before token hpre := by
    rw [h.marks, List.prefix_nil] at hpre
    exact absurd hpre (by simp)

theorem Inv.expired_append {a : Server} (h : Inv a) {m : Mark}
    (hm : ∀ token, m = .expired token → token ∈ issued a.marks) (before : List Mark) (token : List UInt8)
    (hpre : before ++ [Mark.expired token] <+: a.marks ++ [m]) : token ∈ issued before := by
  rcases List.prefix_concat_iff.mp hpre with heq | hpre
  · obtain ⟨rfl, hsame⟩ := List.append_inj' heq rfl
    exact hm token (List.cons.inj hsame).1.symm
  · exact h.expired before token hpre

theorem inv_authorize {a : Server} (h : Inv a) (r : Request) : Inv (a.authorize r).1 := by
  rcases authorize_cases a r with ⟨-, -, htoken, -, hgap, heq⟩ | ⟨-, htoken, -, heq⟩ | ⟨-, heq⟩
  · rw [heq]
    exact ⟨fun _ => (h.session htoken).accept hgap, h.expired_append fun _ hm => nomatch hm⟩
  · rw [heq]
    refine ⟨fun hne => absurd rfl hne, h.expired_append fun token hm => ?_⟩
    cases hm
    exact (h.session htoken).mem_issued
  · rw [heq]
    exact h

theorem Inv.start {a : Server} (h : Inv a) (r : Request) : Inv (a.startSessionCookie r).1 :=
  ⟨fun _ => open_issued _ _ _, h.expired_append fun _ hm => nomatch hm⟩

theorem Inv.compare {a : Server} (h : Inv a) (right : Bool) (now : ℤ) : Inv (a.compare right now) :=
  ⟨fun hne => (h.session hne).append rfl rfl, h.expired_append fun _ hm => nomatch hm⟩

theorem inv_loginPost {a : Server} (h : Inv a) (r : Request) : Inv (a.loginPost r).1 := by
  rcases loginPost_cases a r with ⟨-, heq⟩ | ⟨-, -, heq⟩ | ⟨-, -, heq⟩
  · rw [heq]
    exact h
  · rw [heq]
    exact (h.compare true r.now).start r
  · rw [heq]
    exact ⟨(h.compare false r.now).session, (h.compare false r.now).expired⟩

theorem inv_logout {a : Server} (h : Inv a) : Inv a.logout.1 :=
  ⟨fun hne => absurd rfl hne, h.expired_append fun _ hm => nomatch hm⟩

theorem inv_setupPost {a a' : Server} (h : Inv a) {r : Request} {reply : Reply}
    (hr : a.setupPost r = some (a', reply)) : Inv a' := by
  have hstored : ∀ storage, Inv { a with storage := storage } := fun _ => ⟨h.session, h.expired⟩
  rcases setupPost_cases hr with rfl | ⟨-, storage, rfl | rfl⟩
  · exact h
  · exact hstored storage
  · exact (hstored storage).start r

theorem inv_step {a a' : Server} (h : Inv a) {e : Event} (hstep : step a e = some a') : Inv a' := by
  cases e with
  | request handler r =>
    cases handler with
    | guarded =>
      cases hstep
      exact inv_authorize h r
    | login =>
      cases hstep
      exact inv_loginPost h r
    | logout =>
      cases hstep
      exact inv_logout h
    | setup =>
      obtain ⟨⟨a'', reply⟩, hr, rfl⟩ := Option.map_eq_some_iff.mp hstep
      exact inv_setupPost h hr
  | others storage =>
    cases hstep
    exact ⟨h.session, h.expired⟩

/-- A token that was found idle is not the token of the session, if no token is issued twice. -/
theorem Inv.not_expired {a : Server} (h : Inv a) (hnodup : (issued a.marks).Nodup) {token : List UInt8}
    {last : ℤ} (hopen : Open a.marks token last) : .expired token ∉ a.marks := by
  obtain ⟨before, start, since, heq, hnone, -⟩ := hopen
  intro hmem
  rw [heq, List.mem_append, List.mem_cons] at hmem
  rcases hmem with hmem | hmem | hmem
  · obtain ⟨early, late, rfl⟩ := List.append_of_mem hmem
    have hissued := h.expired early token (by
      rw [heq]
      exact ⟨late ++ Mark.issued token start :: since, by simp⟩)
    rw [heq, issued, List.filterMap_append,
      List.filterMap_cons_some (show issuedToken (.issued token start) = some token from rfl)] at hnodup
    have hdisjoint := (List.nodup_append.mp hnodup).2.2 token (by
      rw [List.filterMap_append]
      exact List.mem_append_left _ hissued) token List.mem_cons_self
    exact hdisjoint rfl
  · cases hmem
  · have hends := hnone _ hmem
    cases hends

/-- **What `authorize` lets pass**, in every state the server can come to: a request with the token that
was issued last, while nothing has ended the session and no gap was too long; never one with a token that
was found idle before. -/
theorem authorize_only_if {s a : Server} (hboot : Booted s) {events : List Event}
    (hrun : run step s events = some a) (hnodup : (issued a.marks).Nodup) {r : Request}
    (h : (a.authorize r).2 = true) :
    a.storage.loadAdminPassword.set = true ∧ ∃ token last, Open a.marks token last ∧
      cookie (headerValue r.header 1024) kSessionCookieName = some token ∧
      r.now - last ≤ kSessionIdleTimeoutUs ∧ .expired token ∉ a.marks := by
  have hinv : Inv a := run_invariant (fun _ _ _ hI hs => inv_step hI hs) hboot.inv hrun
  rcases authorize_cases a r with ⟨-, hset, htoken, hcookie, hgap, -⟩ | ⟨hno, -⟩ | ⟨hno, -⟩
  · have hopen := hinv.session htoken
    exact ⟨hset, _, _, hopen, hcookie, hgap, hinv.not_expired hnodup hopen⟩
  · rw [hno] at h
    cases h
  · rw [hno] at h
    cases h

def visit (now : ℤ) : Request where
  header := ascii "gps_admin=" ++ tokenText fun _ => 0
  now := now

theorem booted_blank : Booted blank := ⟨rfl, rfl, rfl, rfl, rfl⟩

theorem authorize_only_if_visit :
    ∃ a, run step blank [.request .setup (setup "correct horse")] = some a ∧
      (issued a.marks).Nodup ∧ (a.authorize (visit 2000000)).2 = true ∧
      ∃ token last, Open a.marks token last ∧
        cookie (headerValue (visit 2000000).header 1024) kSessionCookieName = some token ∧
        (visit 2000000).now - last ≤ kSessionIdleTimeoutUs ∧ .expired token ∉ a.marks := by
  have hfinal : (run step blank [.request .setup (setup "correct horse")]).map (fun a =>
      (decide (issued a.marks).Nodup, (a.authorize (visit 2000000)).2)) = some (true, true) := by
    decide +kernel
  obtain ⟨a, hrun, heq⟩ := Option.map_eq_some_iff.mp hfinal
  obtain ⟨hnodup, hvisit⟩ := Prod.mk.inj heq
  have hnodup := of_decide_eq_true hnodup
  exact ⟨a, hrun, hnodup, hvisit, (authorize_only_if booted_blank hrun hnodup hvisit).2⟩

/-! ### Strangers -/

/-- A request without the token of the session. -/
def Without (a : Server) (r : Request) : Prop :=
  a.sessionToken = [] ∨ cookie (headerValue r.header 1024) kSessionCookieName ≠ some a.sessionToken

def FirstSetup (a : Server) (r : Request) : Prop :=
  a.storage.loadAdminPassword.set = false ∧ 8 ≤ (submitted r).length ∧ (submitted r).length ≤ 64 ∧
    submitted r = formValue (readBody 512 r.body) "confirm"

/-- The request of a stranger: without the token, and neither a right login nor a first setup. -/
def Stranger (a : Server) : Event → Prop
  | .request h r => Without a r ∧ (h = .login → right a r = false) ∧ (h = .setup → ¬ FirstSetup a r)
  | .others _ => False

/-- A logout while there is a session. -/
def EndsSession (a : Server) : Event → Prop
  | .request .logout _ => a.sessionToken ≠ []
  | _ => False

/-- A right login is delayed in both of two servers or in none. -/
def SameDelay (a b : Server) : Event → Prop
  | .request .login r =>
    right a r = true → (r.now < a.loginBlockUntilUs ↔ r.now < b.loginBlockUntilUs)
  | _ => True

/-- What is inserted in the second run is a stranger's. -/
def Strangers (p : Server × Server) (i : Bool × Event) : Prop := i.1 = true → Stranger p.2 i.2

/-- No stranger ends a session, and no common login is delayed in one of the runs only. -/
def Undisturbed (p : Server × Server) (i : Bool × Event) : Prop :=
  (i.1 = true → ¬ EndsSession p.2 i.2) ∧ (i.1 = false → SameDelay p.1 p.2 i.2)

/-- What the session and its handlers read: the same in both runs. -/
structure Alike (a b : Server) : Prop where
  storage : a.storage = b.storage
  token : a.sessionToken = b.sessionToken
  lastSeen : a.sessionLastSeenUs = b.sessionLastSeenUs
  closed : b.sessionToken = [] → b.sessionLastSeenUs = 0

theorem length_tokenText (random : Fin 4 → UInt32) : (tokenText random).length = 32 := by
  unfold tokenText
  rw [List.length_flatten, List.map_ofFn]
  simp only [List.ofFn_succ, Function.comp_apply, hex8, List.length_map, List.length_range]
  rfl

theorem tokenText_ne_nil (random : Fin 4 → UInt32) : tokenText random ≠ [] := by
  intro h
  have hlength := length_tokenText random
  rw [h] at hlength
  cases hlength

theorem Booted.alike {a : Server} (h : Booted a) : Alike a a := ⟨rfl, rfl, rfl, fun _ => h.lastSeen⟩

theorem right_congr {a b : Server} (h : a.storage = b.storage) (r : Request) : right a r = right b r := by
  unfold right Server.passwordMatches
  rw [h]

theorem setupPost_refused {a : Server} {r : Request} (h : ¬ FirstSetup a r) :
    (a.setupPost r).map Prod.fst = some a := by
  unfold Server.setupPost
  by_cases hset : a.storage.loadAdminPassword.set = true
  · rw [if_pos hset]
    rfl
  · rw [if_neg hset]
    dsimp only
    rw [show formValue (readBody 512 r.body) "password" = submitted r from rfl]
    rw [if_pos]
    · rfl
    · by_contra hgood
      rw [not_or, not_or, not_lt, not_lt, not_not] at hgood
      exact h ⟨Bool.eq_false_iff.mpr hset, hgood⟩

theorem Alike.loginPost_wrong {a b : Server} (h : Alike a b) {r : Request} (hwrong : right b r = false) :
    Alike a (b.loginPost r).1 := by
  rcases loginPost_cases b r with ⟨-, heq⟩ | ⟨-, hright, -⟩ | ⟨-, -, heq⟩
  · rw [heq]
    exact h
  · rw [hwrong] at hright
    cases hright
  · rw [heq]
    exact ⟨h.storage, h.token, h.lastSeen, h.closed⟩

theorem alike_inserted {s t t' : Server} (h : Alike s t) {e : Event} (hstranger : Stranger t e)
    (hends : ¬ EndsSession t e) (hstep : step t e = some t') : Alike s t' := by
  cases e with
  | others storage => exact absurd hstranger id
  | request handler r =>
    obtain ⟨hwithout, hlogin, hsetup⟩ := hstranger
    cases handler with
    | guarded =>
      cases hstep
      rcases authorize_cases t r with ⟨-, -, htoken, hcookie, -⟩ | ⟨-, htoken, hcookie, -⟩ | ⟨-, heq⟩
      · exact absurd hcookie (hwithout.resolve_left htoken)
      · exact absurd hcookie (hwithout.resolve_left htoken)
      · rw [heq]
        exact h
    | login =>
      cases hstep
      exact h.loginPost_wrong (hlogin rfl)
    | logout =>
      cases hstep
      have hnone : t.sessionToken = [] := not_not.mp hends
      exact ⟨h.storage, h.token.trans hnone, h.lastSeen.trans (h.closed hnone), fun _ => rfl⟩
    | setup =>
      rw [show step t (.request .setup r) = (t.setupPost r).map Prod.fst from rfl,
        setupPost_refused (hsetup rfl)] at hstep
      cases hstep
      exact h

theorem Alike.authorize {a b : Server} (h : Alike a b) (r : Request) :
    Alike (a.authorize r).1 (b.authorize r).1 := by
  unfold Server.authorize
  rw [h.storage, h.token, h.lastSeen]
  dsimp only
  split_ifs with hset hno hidle
  · exact h
  · exact h
  · exact ⟨rfl, rfl, rfl, fun _ => rfl⟩
  · rw [not_or, not_or] at hno
    exact ⟨rfl, rfl, rfl, fun hnone => absurd hnone hno.2.1⟩

theorem Alike.start (a b : Server) (h : a.storage = b.storage) (r : Request) :
    Alike (a.startSessionCookie r).1 (b.startSessionCookie r).1 :=
  ⟨h, rfl, rfl, fun hnone => absurd hnone (tokenText_ne_nil _)⟩

theorem Alike.loginPost {a b : Server} (h : Alike a b) {r : Request}
    (hdelay : SameDelay a b (.request .login r)) : Alike (a.loginPost r).1 (b.loginPost r).1 := by
  have hright : right a r = right b r := right_congr h.storage r
  by_cases hb : right b r = true
  · have hunread : Unread a r ↔ Unread b r :=
      or_congr (by rw [h.storage]) (hdelay (hright.trans hb))
    rcases loginPost_cases b r with ⟨hread, heq⟩ | ⟨hread, -, heq⟩ | ⟨-, hwrong, -⟩
    · rcases loginPost_cases a r with ⟨-, heq'⟩ | ⟨hread', -⟩ | ⟨hread', -⟩
      · rw [heq, heq']
        exact h
      · exact absurd (hunread.mpr hread) hread'
      · exact absurd (hunread.mpr hread) hread'
    · rcases loginPost_cases a r with ⟨hread', -⟩ | ⟨-, -, heq'⟩ | ⟨-, hwrong, -⟩
      · exact absurd (hunread.mp hread') hread
      · rw [heq, heq']
        exact Alike.start (a.compare true r.now) (b.compare true r.now) h.storage r
      · rw [hright, hb] at hwrong
        cases hwrong
    · rw [hb] at hwrong
      cases hwrong
  · rw [Bool.not_eq_true] at hb
    -- in each run the session is what it was
    have hkept := h.loginPost_wrong hb
    rcases loginPost_cases a r with ⟨-, heq'⟩ | ⟨-, hbad, -⟩ | ⟨-, -, heq'⟩
    · rw [heq']
      exact hkept
    · rw [hright, hb] at hbad
      cases hbad
    · rw [heq']
      exact ⟨hkept.storage, hkept.token, hkept.lastSeen, hkept.closed⟩

theorem Alike.setupPost {a b a' b' : Server} (h : Alike a b) {r : Request} {ra rb : Reply}
    (ha : a.setupPost r = some (a', ra)) (hb : b.setupPost r = some (b', rb)) : Alike a' b' := by
  unfold Server.setupPost at ha hb
  rw [h.storage] at ha
  by_cases hset : b.storage.loadAdminPassword.set = true
  · rw [if_pos hset] at ha hb
    cases ha
    cases hb
    exact h
  · rw [if_neg hset] at ha hb
    dsimp only at ha hb
    rw [show formValue (readBody 512 r.body) "password" = submitted r from rfl] at ha hb
    by_cases hbad : (submitted r).length < 8 ∨ (submitted r).length > 64 ∨
        submitted r ≠ formValue (readBody 512 r.body) "confirm"
    · rw [if_pos hbad] at ha hb
      cases ha
      cases hb
      exact h
    · rw [if_neg hbad] at ha hb
      obtain ⟨e, he, ha⟩ := Option.map_eq_some_iff.mp ha
      obtain ⟨e', he', hb⟩ := Option.map_eq_some_iff.mp hb
      obtain rfl := Option.some.inj (he.symm.trans he')
      by_cases hok : e ≠ ESP_OK
      · rw [if_pos hok] at ha hb
        obtain ⟨rfl, -⟩ := Prod.mk.inj ha
        obtain ⟨rfl, -⟩ := Prod.mk.inj hb
        exact ⟨rfl, h.token, h.lastSeen, h.closed⟩
      · rw [if_neg hok] at ha hb
        obtain ⟨rfl, -⟩ := Prod.mk.inj ha
        obtain ⟨rfl, -⟩ := Prod.mk.inj hb
        exact Alike.start
          { a with storage := (b.storage.saveAdminPassword (submitted r)).1 }
          { b with storage := (b.storage.saveAdminPassword (submitted r)).1 } rfl r

theorem alike_common {s t s' t' : Server} (h : Alike s t) {e : Event} (hdelay : SameDelay s t e)
    (hs : step s e = some s') (ht : step t e = some t') : Alike s' t' := by
  cases e with
  | others storage =>
    cases hs
    cases ht
    exact ⟨rfl, h.token, h.lastSeen, h.closed⟩
  | request handler r =>
    cases handler with
    | guarded =>
      cases hs
      cases ht
      exact h.authorize r
    | login =>
      cases hs
      cases ht
      exact h.loginPost hdelay
    | logout =>
      cases hs
      cases ht
      exact ⟨h.storage, rfl, rfl, fun _ => rfl⟩
    | setup =>
      obtain ⟨⟨s'', rs⟩, hsetup, rfl⟩ := Option.map_eq_some_iff.mp hs
      obtain ⟨⟨t'', rt⟩, hsetup', rfl⟩ := Option.map_eq_some_iff.mp ht
      exact h.setupPost hsetup hsetup'

/-- **Strangers are harmless**: two runs that differ by the requests of strangers have the same session
after the requests they share, if no stranger logs a session out and no right login they share is delayed
in one of them only. -/
theorem strangers_harmless {s a b : Server} (hboot : Booted s) {events : List (Bool × Event)}
    (hevents : Along (both step) (fun p i => Strangers p i ∧ Undisturbed p i) (s, s) events)
    (ha : run step s (common events) = some a) (hb : run step s (all events) = some b) :
    a.sessionToken = b.sessionToken ∧ a.sessionLastSeenUs = b.sessionLastSeenUs := by
  have hsame : Alike a b := by
    refine unwinding (R := Alike) (fun t u e u' h hC hu => ?_) (fun t u e t' u' h hC ht hu => ?_)
      hboot.alike hevents ha hb
    · exact alike_inserted h (hC.1 rfl) (hC.2.1 rfl) hu
    · exact alike_common h (hC.2.2 rfl) ht hu
  exact ⟨hsame.token, hsame.lastSeen⟩

/-! ### Strangers that disturb -/

instance (a : Server) (r : Request) : Decidable (Without a r) := inferInstanceAs (Decidable (_ ∨ _))

instance (a : Server) (r : Request) : Decidable (FirstSetup a r) := inferInstanceAs (Decidable (_ ∧ _))

instance (a : Server) : ∀ e, Decidable (Stranger a e)
  | .request h r => inferInstanceAs (Decidable
      (Without a r ∧ (h = .login → right a r = false) ∧ (h = .setup → ¬ FirstSetup a r)))
  | .others _ => inferInstanceAs (Decidable False)

instance (a : Server) : ∀ e, Decidable (EndsSession a e)
  | .request .logout _ => inferInstanceAs (Decidable (a.sessionToken ≠ []))
  | .request .guarded _ => inferInstanceAs (Decidable False)
  | .request .login _ => inferInstanceAs (Decidable False)
  | .request .setup _ => inferInstanceAs (Decidable False)
  | .others _ => inferInstanceAs (Decidable False)

instance (a b : Server) : ∀ e, Decidable (SameDelay a b e)
  | .request .login r => inferInstanceAs (Decidable
      (right a r = true → (r.now < a.loginBlockUntilUs ↔ r.now < b.loginBlockUntilUs)))
  | .request .guarded _ => inferInstanceAs (Decidable True)
  | .request .logout _ => inferInstanceAs (Decidable True)
  | .request .setup _ => inferInstanceAs (Decidable True)
  | .others _ => inferInstanceAs (Decidable True)

instance (p : Server × Server) (i : Bool × Event) : Decidable (Strangers p i) :=
  inferInstanceAs (Decidable (i.1 = true → Stranger p.2 i.2))

instance (p : Server × Server) (i : Bool × Event) : Decidable (Undisturbed p i) :=
  inferInstanceAs (Decidable (_ ∧ _))

def login (password : String) (now : ℤ) (random : Fin 4 → UInt32) : Event :=
  .request .login ⟨[], ascii "user=admin&password=" ++ ascii password, now, now, random⟩

/-- After the setup a stranger looks around and tries a password, and the administrator comes back. -/
def visited : List (Bool × Event) :=
  [(false, .request .setup (setup "correct horse")),
    (true, .request .guarded ⟨[], [], 1500000, 0, fun _ => 0⟩),
    (true, login "guess" 2000000 fun _ => 0), (false, .request .guarded (visit 3000000))]

/-- After the setup a stranger logs out. -/
def loggedOut : List (Bool × Event) :=
  [(false, .request .setup (setup "correct horse")),
    (true, .request .logout ⟨[], [], 2000000, 0, fun _ => 0⟩)]

/-- After the setup a stranger tries three passwords, and the administrator logs in. -/
def delayed : List (Bool × Event) :=
  [(false, .request .setup (setup "correct horse")), (true, login "guess" 2000000 fun _ => 0),
    (true, login "guess" 2000000 fun _ => 0), (true, login "guess" 2000000 fun _ => 0),
    (false, login "correct horse" 3000000 fun _ => 1)]

theorem strangers_harmless_visited :
    ∃ a b, run step blank (common visited) = some a ∧ run step blank (all visited) = some b ∧
      a.sessionToken = b.sessionToken ∧ a.sessionLastSeenUs = b.sessionLastSeenUs := by
  have hfinal : checkAlong (both step) (fun p i => decide (Strangers p i ∧ Undisturbed p i))
        (blank, blank) visited = true ∧
      (run step blank (common visited)).isSome = true ∧ (run step blank (all visited)).isSome = true := by
    decide +kernel
  obtain ⟨hcheck, hsome, hsome'⟩ := hfinal
  obtain ⟨a, ha⟩ := Option.isSome_iff_exists.mp hsome
  obtain ⟨b, hb⟩ := Option.isSome_iff_exists.mp hsome'
  exact ⟨a, b, ha, hb, strangers_harmless booted_blank
    (along_of_check (fun _ _ h => of_decide_eq_true h) visited _ hcheck) ha hb⟩

/-- Only strangers' requests are inserted, and afterwards the session is another. -/
def Disturbs (events : List (Bool × Event)) : Prop :=
  Along (both step) Strangers (blank, blank) events ∧
    ∃ a b, run step blank (common events) = some a ∧ run step blank (all events) = some b ∧
      a.sessionToken ≠ b.sessionToken

/-- `Disturbs`, computed. -/
def disturbs (events : List (Bool × Event)) : Bool :=
  checkAlong (both step) (fun p i => decide (Strangers p i)) (blank, blank) events &&
    match run step blank (common events), run step blank (all events) with
    | some a, some b => decide (a.sessionToken ≠ b.sessionToken)
    | _, _ => false

theorem Disturbs.of_check {events : List (Bool × Event)} (h : disturbs events = true) :
    Disturbs events := by
  unfold disturbs at h
  rw [Bool.and_eq_true] at h
  obtain ⟨hcheck, h⟩ := h
  refine ⟨along_of_check (fun _ _ h => of_decide_eq_true h) events _ hcheck, ?_⟩
  split at h
  · next a b ha hb => exact ⟨a, b, ha, hb, of_decide_eq_true h⟩
  · cases h

/-- **Strangers disturb the session**: one ends it, and one keeps the administrator from starting
another. -/
theorem strangers_disturb : Disturbs loggedOut ∧ Disturbs delayed := by
  have hchecks : disturbs loggedOut = true ∧ disturbs delayed = true := by
    decide +kernel
  exact ⟨.of_check hchecks.1, .of_check hchecks.2⟩

end GpsBase.Web.Session
