import GpsBase.Web.Admin

/-! # Redirects of the login

`login_get_handler` and `login_post_handler` redirect to the path they were asked for, if `safe_local_path`
lets it through. It looks for `://`, but a path that begins with `//` is a host to a browser. -/

namespace GpsBase.Web.Redirects

open GpsBase.Lib.CText GpsBase.Settings.Records GpsBase.Web.Admin GpsBase.Web.Forms

/-- `login_get_handler`. -/
def loginGet (a : Server) (r : Request) (query : List UInt8) : Server × Reply :=
  if !a.storage.loadAdminPassword.set then (a, .redirect (ascii "/setup") none)
  else
    let next := queryParam query (ascii "next")
    let next := if !safeLocalPath next || next = ascii "/login" then ascii "/" else next
    let (a, authorized) := a.authorize r
    if authorized then (a, .redirect next none) else (a, .loginPage [] next)

/-- The `Location` header of a reply; it is set with `c_str`. -/
def location : Reply → Option (List UInt8)
  | .redirect path _ => some (cStr path)
  | _ => none

/-- A path on the same host. -/
structure Local (path : List UInt8) : Prop where
  absolute : path[0]? = some 47
  no_host : path[1]? ≠ some 47 ∧ path[1]? ≠ some 92
  no_break : 13 ∉ path ∧ 10 ∉ path

/-- `safe_local_path` takes the path for one on the same host though it begins with a host. -/
def Misses (path : List UInt8) : Prop := safeLocalPath path = true ∧ ascii "//" <+: path

/-- The request to `login_get_handler` is redirected to the path it asks for. -/
def GetRedirected (a : Server) (r : Request) : Prop :=
  a.storage.loadAdminPassword.set = true ∧ (a.authorize r).2 = true

/-- The request to `login_post_handler` is redirected to the path it asks for. -/
def PostRedirected (a : Server) (r : Request) : Prop :=
  a.storage.loadAdminPassword.set = true ∧ a.loginBlockUntilUs ≤ r.now ∧
    a.passwordMatches (formValue (readBody 512 r.body) "user")
      (formValue (readBody 512 r.body) "password") = true

theorem safe_checks {path : List UInt8} (h : safeLocalPath path = true) :
    path.head? = some 47 ∧ 92 ∉ path ∧ 13 ∉ path ∧ 10 ∉ path := by
  unfold safeLocalPath at h
  simp only [Bool.and_eq_true, Bool.not_eq_true', List.contains_eq_mem, decide_eq_true_eq,
    decide_eq_false_iff_not] at h
  obtain ⟨⟨⟨⟨h1, _⟩, h2⟩, h3⟩, h4⟩ := h
  exact ⟨h1, h2, h3, h4⟩

/-- **A path that is let through stays on the host unless it begins with two slashes.** -/
theorem local_iff {path : List UInt8} (h : safeLocalPath path = true) :
    Local (cStr path) ↔ ¬ ascii "//" <+: path := by
  obtain ⟨hhead, h92, h13, h10⟩ := safe_checks h
  obtain ⟨rest, rfl⟩ : ∃ rest, path = 47 :: rest := by
    rcases path with _ | ⟨b, rest⟩
    · cases hhead
    · cases hhead
      exact ⟨rest, rfl⟩
  have hslashes : ascii "//" <+: 47 :: rest ↔ rest.head? = some 47 := by
    rw [show ascii "//" = [47, 47] from rfl, List.cons_prefix_cons, and_iff_right rfl]
    rcases rest with _ | ⟨b, rest⟩
    · exact iff_of_false (fun hpre => absurd (List.prefix_nil.mp hpre) (List.cons_ne_nil _ _)) (by simp)
    · rw [List.cons_prefix_cons, and_iff_left List.nil_prefix, List.head?_cons, Option.some.injEq, eq_comm]
  have hcut : cStr (47 :: rest) = 47 :: cStr rest := List.takeWhile_cons_of_pos (by decide)
  have hsub : ∀ b, b ∉ 47 :: rest → b ∉ cStr (47 :: rest) := fun b hb hmem =>
    hb ((List.takeWhile_sublist _).subset hmem)
  have hsecond : (cStr rest)[0]? = some 47 ↔ rest.head? = some 47 := by
    rcases rest with _ | ⟨b, rest⟩
    · exact Iff.rfl
    · unfold cStr
      rw [List.takeWhile_cons]
      split_ifs with hb
      · exact Iff.rfl
      · rw [decide_eq_true_iff, not_not] at hb
        subst hb
        exact iff_of_false (by simp) (by simp)
  rw [hslashes]
  constructor
  · rintro ⟨_, ⟨hno, _⟩, _⟩ hhost
    rw [hcut, List.getElem?_cons_succ] at hno
    exact hno (hsecond.mpr hhost)
  · intro hhost
    refine ⟨by rw [hcut]; rfl, ⟨?_, ?_⟩, hsub 13 h13, hsub 10 h10⟩
    · rw [hcut, List.getElem?_cons_succ]
      exact fun heq => hhost (hsecond.mp heq)
    · exact fun heq => hsub 92 h92 (List.mem_of_getElem? heq)

/-- The front page is on the host, and the page of the setup is too. -/
theorem local_constant : Local (cStr (ascii "/")) ∧ Local (cStr (ascii "/setup")) := by
  constructor <;> refine ⟨by decide, ⟨by decide, by decide⟩, by decide, by decide⟩

theorem local_next_iff (next : List UInt8) :
    Local (cStr (if safeLocalPath next = true ∧ next ≠ ascii "/login" then next else ascii "/")) ↔
      ¬ Misses next := by
  unfold Misses
  split_ifs with h
  · rw [local_iff h.1, not_and, imp_iff_right h.1]
  · refine iff_of_true local_constant.1 fun hmiss => ?_
    have hlogin : next = ascii "/login" := by
      by_contra hne
      exact h ⟨hmiss.1, hne⟩
    rw [hlogin] at hmiss
    exact absurd hmiss.2 (by decide)

theorem redirect_local_iff (next : List UInt8) (cookie : Option (List UInt8)) :
    (∀ path, location (.redirect (if safeLocalPath next = true ∧ next ≠ ascii "/login" then next
      else ascii "/") cookie) = some path → Local path) ↔ ¬ Misses next := by
  rw [← local_next_iff]
  constructor
  · exact fun h => h _ rfl
  · rintro h path hpath
    rw [← Option.some.inj hpath]
    exact h

theorem loginGet_local_iff (a : Server) (r : Request) (query : List UInt8) :
    (∀ path, location (loginGet a r query).2 = some path → Local path) ↔
      (GetRedirected a r → ¬ Misses (queryParam query (ascii "next"))) := by
  unfold loginGet GetRedirected
  set next := queryParam query (ascii "next")
  by_cases hset : a.storage.loadAdminPassword.set = true
  · have hchosen : (if (!safeLocalPath next || decide (next = ascii "/login")) = true then ascii "/"
        else next) = if safeLocalPath next = true ∧ next ≠ ascii "/login" then next else ascii "/" := by
      by_cases hsafe : safeLocalPath next = true <;> by_cases hlogin : next = ascii "/login" <;>
        simp [hsafe, hlogin]
    rw [hset, Bool.not_true, if_neg Bool.false_ne_true, and_iff_right rfl]
    dsimp only
    rw [hchosen]
    by_cases hauth : (a.authorize r).2 = true
    · rw [if_pos hauth, imp_iff_right hauth]
      exact redirect_local_iff next none
    · rw [if_neg hauth]
      exact iff_of_true (fun _ h => nomatch h) fun h => absurd h hauth
  · rw [Bool.not_eq_true] at hset
    rw [hset, Bool.not_false, if_pos rfl]
    refine iff_of_true (fun path hpath => ?_) fun h => absurd h.1 Bool.false_ne_true
    rw [← Option.some.inj hpath]
    exact local_constant.2

theorem loginPost_local_iff (a : Server) (r : Request) :
    (∀ path, location (a.loginPost r).2 = some path → Local path) ↔
      (PostRedirected a r → ¬ Misses (formValue (readBody 512 r.body) "next")) := by
  unfold Server.loginPost PostRedirected
  set next := formValue (readBody 512 r.body) "next"
  by_cases hset : a.storage.loadAdminPassword.set = true
  · rw [hset, Bool.not_true, if_neg Bool.false_ne_true, and_iff_right rfl]
    by_cases hblocked : r.now < a.loginBlockUntilUs
    · rw [if_pos hblocked]
      exact iff_of_true (fun _ h => nomatch h) fun h => absurd h.1 (not_le.mpr hblocked)
    · rw [if_neg hblocked, and_iff_right (not_lt.mp hblocked)]
      dsimp only
      by_cases hmatch : a.passwordMatches (formValue (readBody 512 r.body) "user")
          (formValue (readBody 512 r.body) "password") = true
      · rw [if_pos hmatch, imp_iff_right hmatch]
        exact redirect_local_iff next _
      · rw [if_neg hmatch]
        exact iff_of_true (fun _ h => nomatch h) fun h => absurd h hmatch
  · rw [Bool.not_eq_true] at hset
    rw [hset, Bool.not_false, if_pos rfl]
    refine iff_of_true (fun path hpath => ?_) fun h => absurd h.1 Bool.false_ne_true
    rw [← Option.some.inj hpath]
    exact local_constant.2

/-- **The redirects of the login stay on this host** exactly if the path that is asked for is not one of those
that `safe_local_path` misses. -/
theorem location_local_iff (a : Server) (r : Request) (query : List UInt8) :
    ((∀ path, location (loginGet a r query).2 = some path → Local path) ↔
      (GetRedirected a r → ¬ Misses (queryParam query (ascii "next")))) ∧
    ((∀ path, location (a.loginPost r).2 = some path → Local path) ↔
      (PostRedirected a r → ¬ Misses (formValue (readBody 512 r.body) "next"))) :=
  ⟨loginGet_local_iff a r query, loginPost_local_iff a r⟩

def signedIn : Server :=
  { blank with
    storage := (blank.storage.saveAdminPassword (ascii "correct horse")).1
    sessionToken := ascii "abc"
    sessionLastSeenUs := 1000000 }

/-- **A link to the login leads to another host**, with a session and at a login. -/
theorem location_elsewhere :
    location (loginGet signedIn ⟨ascii "gps_admin=abc", [], 2000000, 2000000, fun _ => 0⟩
        (ascii "next=//evil.example")).2 = some (ascii "//evil.example") ∧
      location (signedIn.loginPost ⟨[], ascii "user=admin&password=correct+horse&next=%2f/evil.example",
        2000000, 2000000, fun _ => 0⟩).2 = some (ascii "//evil.example") ∧
      ¬ Local (ascii "//evil.example") := by
  refine ⟨by decide +kernel, by decide +kernel, fun h => h.no_host.1 ?_⟩
  decide

end GpsBase.Web.Redirects
