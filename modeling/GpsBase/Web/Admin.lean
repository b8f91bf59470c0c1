import GpsBase.Lib.Search
import GpsBase.Settings.Saves
import GpsBase.Web.Forms

/-! # The admin login

The part of the web server that knows the administrator: the cookie of a request, the session, and the
handlers that start and end one. Every other handler that looks at the session calls `authorize` and goes
on or replies that a login is required; what it does then is left out.

A request comes with what its handler reads: the `Cookie` header, the body, the time, and, if it starts a
session, the time then and the four random numbers. The server keeps a record of what it did with the
session and with passwords (`marks`). -/

namespace GpsBase.Web.Admin

open GpsBase.Lib.CText GpsBase.Lib.Search GpsBase.Settings GpsBase.Settings.Records GpsBase.Web.Forms

/-! ### Cookies -/

def kSessionCookieName : String := "gps_admin"

def headerValue (header : List UInt8) (maxLen : ℕ) : List UInt8 :=
  if header.length = 0 ∨ maxLen < header.length then [] else cStr header

/-- The loop of `cookie_value`; a round takes at least one byte, and there are `fuel` rounds. -/
def cookieScan (wanted : List UInt8) : ℕ → List UInt8 → List UInt8
  | 0, _ => []
  | fuel + 1, cookies =>
    if cookies = [] then []
    else
      let rest := cookies.dropWhile fun b => b = 59 || b = 32
      let field := rest.takeWhile fun b => b ≠ 59
      if wanted.isPrefixOf rest then field.drop wanted.length
      else cookieScan wanted fuel (rest.drop (field.length + 1))

def cookieValue (header : List UInt8) (name : String) : List UInt8 :=
  let cookies := headerValue header 1024
  cookieScan (ascii name ++ [61]) (cookies.length + 1) cookies

/-- The cookies of a header, each without the blanks before it. -/
def cookies (header : List UInt8) : List (List UInt8) :=
  (header.splitOn 59).map fun cookie => cookie.dropWhile fun b => b = 32

/-- The value of the first cookie of the name. -/
def cookie (header : List UInt8) (name : String) : Option (List UInt8) :=
  ((cookies header).find? fun cookie => (ascii name ++ [61]).isPrefixOf cookie).map fun cookie =>
    cookie.drop (ascii name ++ [61]).length

/-! ### The server -/

def kSessionIdleTimeoutUs : ℤ := 60 * 60 * 1000000

def kLoginBaseDelayUs : ℤ := 5 * 1000000

def kLoginMaxDelayUs : ℤ := 30 * 1000000

/-- What the server did: a session began with a token, ended, was found by a request with a header while
a password was or was not set, or was found idle; or a password was compared. -/
inductive Mark
  | issued (token : List UInt8) (time : ℤ)
  | cleared
  | accepted (set : Bool) (header : List UInt8) (time : ℤ)
  | expired (token : List UInt8)
  | compared (right : Bool) (time : ℤ)
  deriving DecidableEq

structure Request where
  header : List UInt8 := []
  body : List UInt8 := []
  now : ℤ
  issuedAt : ℤ := now
  random : Fin 4 → UInt32 := fun _ => 0

inductive Reply
  | redirect (location : List UInt8) (setCookie : Option (List UInt8))
  | loginPage (message next : List UInt8)
  | error (code : ℕ) (text : List UInt8)
  | failed (e : EspErr)
  deriving DecidableEq

/-- The members of `AdminWebServer`, and the record; `failed_login_count_` is a `uint32_t`. -/
structure Server where
  storage : Storage
  sessionToken : List UInt8 := []
  sessionLastSeenUs : ℤ := 0
  failedLoginCount : ℕ := 0
  loginBlockUntilUs : ℤ := 0
  marks : List Mark := []

/-- `%08lx`. -/
def hex8 (r : UInt32) : List UInt8 :=
  (List.range 8).map fun i =>
    let digit := r.toNat / 16 ^ (7 - i) % 16
    UInt8.ofNat (if digit < 10 then 48 + digit else 87 + digit)

def tokenText (random : Fin 4 → UInt32) : List UInt8 := (List.ofFn fun i => hex8 (random i)).flatten

def safeLocalPath (path : List UInt8) : Bool :=
  path.head? = some 47 && !decide (ascii "://" <:+: path) && !path.contains 92 && !path.contains 13 &&
    !path.contains 10

namespace Server

/-! ### Sessions -/

def authorize (a : Server) (r : Request) : Server × Bool :=
  if !a.storage.loadAdminPassword.set then (a, false)
  else
    let token := cookieValue r.header kSessionCookieName
    if token = [] ∨ a.sessionToken = [] ∨ token ≠ a.sessionToken then (a, false)
    else if a.sessionLastSeenUs ≤ 0 ∨ r.now - a.sessionLastSeenUs > kSessionIdleTimeoutUs then
      ({ a with sessionToken := [], sessionLastSeenUs := 0
                marks := a.marks ++ [Mark.expired a.sessionToken] }, false)
    else
      ({ a with sessionLastSeenUs := r.now
                marks := a.marks ++ [Mark.accepted a.storage.loadAdminPassword.set r.header r.now] }, true)

def passwordMatches (a : Server) (user password : List UInt8) : Bool :=
  a.storage.loadAdminPassword.set && user = ascii "admin" &&
    password = a.storage.loadAdminPassword.password

def startSessionCookie (a : Server) (r : Request) : Server × List UInt8 :=
  let token := tokenText r.random
  ({ a with
      sessionToken := token
      sessionLastSeenUs := r.issuedAt
      failedLoginCount := 0
      loginBlockUntilUs := 0
      marks := a.marks ++ [Mark.issued token r.issuedAt] },
    ascii kSessionCookieName ++ ascii "=" ++ token ++
      ascii "; Path=/; Max-Age=3600; HttpOnly; SameSite=Strict")

def clearSessionCookie (a : Server) : Server × List UInt8 :=
  ({ a with sessionToken := [], sessionLastSeenUs := 0, marks := a.marks ++ [Mark.cleared] },
    ascii kSessionCookieName ++ ascii "=; Path=/; Max-Age=0; HttpOnly; SameSite=Strict")

/-! ### Handlers -/

def fail (a : Server) (now : ℤ) : Server :=
  let count := (a.failedLoginCount + 1) % 2 ^ 32
  { a with
    failedLoginCount := count
    loginBlockUntilUs :=
      if count ≥ 3 then now + min (kLoginBaseDelayUs * (count - 2 : ℕ)) kLoginMaxDelayUs
      else a.loginBlockUntilUs }

def compare (a : Server) (right : Bool) (now : ℤ) : Server :=
  { a with marks := a.marks ++ [Mark.compared right now] }

/-- `login_post_handler`. -/
def loginPost (a : Server) (r : Request) : Server × Reply :=
  if !a.storage.loadAdminPassword.set then (a, .redirect (ascii "/setup") none)
  else if r.now < a.loginBlockUntilUs then
    (a, .loginPage (ascii "Too many failed logins. Try again in " ++
      intText ((a.loginBlockUntilUs - r.now + 999999) / 1000000) ++ ascii " seconds.") (ascii "/"))
  else
    let body := readBody 512 r.body
    let requestedNext := formValue body "next"
    let next :=
      if safeLocalPath requestedNext ∧ requestedNext ≠ ascii "/login" then requestedNext else ascii "/"
    if a.passwordMatches (formValue body "user") (formValue body "password") then
      let (a, cookie) := (a.compare true r.now).startSessionCookie r
      (a, .redirect next (some cookie))
    else ((a.compare false r.now).fail r.now, .loginPage (ascii "Invalid admin login.") next)

/-- `logout_handler`. -/
def logout (a : Server) : Server × Reply :=
  let (a, cookie) := a.clearSessionCookie
  (a, .redirect (ascii "/login") (some cookie))

/-- `setup_post_handler`; no reply if the power is lost. -/
def setupPost (a : Server) (r : Request) : Option (Server × Reply) :=
  if a.storage.loadAdminPassword.set then some (a, .error 403 (ascii "Already set"))
  else
    let body := readBody 512 r.body
    let password := formValue body "password"
    if password.length < 8 ∨ password.length > 64 ∨ password ≠ formValue body "confirm" then
      some (a, .error 400 (ascii "Passwords do not match"))
    else
      let (storage, result) := a.storage.saveAdminPassword password
      let a := { a with storage := storage }
      result.map fun e =>
        if e ≠ ESP_OK then (a, .failed e)
        else
          let (a, cookie) := a.startSessionCookie r
          (a, .redirect (ascii "/") (some cookie))

end Server

/-- The handlers that know the session. -/
inductive Handler
  | guarded
  | login
  | logout
  | setup
  deriving DecidableEq

/-- A request is handled, or another task changes what is stored. -/
inductive Event
  | request (h : Handler) (r : Request)
  | others (storage : Storage)

def step (a : Server) : Event → Option Server
  | .request .guarded r => some (a.authorize r).1
  | .request .login r => some (a.loginPost r).1
  | .request .logout _ => some a.logout.1
  | .request .setup r => (a.setupPost r).map Prod.fst
  | .others storage => some { a with storage := storage }

/-! ### The cookie that is found -/

/-- Blanks and semicolons at the front of a header do not matter. -/
theorem find_dropWhile {p : List UInt8 → Bool} (hp : p [] = false) (s : List UInt8) :
    (cookies (s.dropWhile fun b => b = 59 || b = 32)).find? p = (cookies s).find? p := by
  induction s with
  | nil => rfl
  | cons b s ih =>
    by_cases hb : (b = 59 || b = 32) = true
    · rw [List.dropWhile_cons_of_pos (p := fun b => decide (b = 59) || decide (b = 32)) hb, ih]
      rcases (Bool.or_eq_true _ _).mp hb with h59 | h32
      · rw [decide_eq_true_iff] at h59
        subst h59
        unfold cookies
        rw [splitOn_cons_self, List.map_cons, List.find?_cons_of_neg]
        rw [show ([] : List UInt8).dropWhile (fun b => decide (b = 32)) = [] from rfl, hp]
        exact Bool.false_ne_true
      · rw [decide_eq_true_iff] at h32
        subst h32
        unfold cookies
        rw [splitOn_cons_of_ne (by decide)]
        rcases hsplit : s.splitOn 59 with _ | ⟨first, rest⟩
        · rfl
        · rw [List.modifyHead_cons, List.map_cons, List.map_cons, List.dropWhile_cons_of_pos (by simp)]
    · rw [List.dropWhile_cons_of_neg (p := fun b => decide (b = 59) || decide (b = 32)) hb]

/-- **The scanner finds the first cookie of the name.** -/
theorem cookieScan_eq {wanted : List UInt8} (hne : wanted ≠ []) (h : 59 ∉ wanted) :
    ∀ (fuel : ℕ) (s : List UInt8), s.length < fuel →
      cookieScan wanted fuel s = (((cookies s).find? fun c => wanted.isPrefixOf c).map fun c =>
        c.drop wanted.length).getD []
  | 0, _, hfuel => absurd hfuel (Nat.not_lt_zero _)
  | fuel + 1, s, hfuel => by
    have hempty : wanted.isPrefixOf [] = false := by
      cases wanted with
      | nil => exact absurd rfl hne
      | cons w wanted => rfl
    unfold cookieScan
    by_cases hs : s = []
    · rw [if_pos hs, hs, show cookies [] = [[]] from rfl, List.find?_cons_of_neg]
      · rfl
      · rw [hempty]
        exact Bool.false_ne_true
    · rw [if_neg hs]
      dsimp only
      rw [← find_dropWhile (p := fun c => wanted.isPrefixOf c) hempty s]
      set rest := s.dropWhile fun b => b = 59 || b = 32 with hrest
      have hle : rest.length ≤ s.length := (List.dropWhile_sublist _).length_le
      -- the first cookie has no blank before it
      have hfirst : (rest.takeWhile fun b => b ≠ 59).dropWhile (fun b => b = 32) =
          rest.takeWhile fun b => b ≠ 59 := by
        rcases hcases : rest with _ | ⟨b, rest'⟩
        · rfl
        · have hb : ¬ (b = 59 || b = 32) = true := by
            have hhead := List.head?_dropWhile_not (fun b => decide (b = 59) || decide (b = 32)) s
            rw [← hrest, hcases] at hhead
            simpa using hhead
          rw [Bool.or_eq_true, decide_eq_true_iff, decide_eq_true_iff, not_or] at hb
          rw [List.takeWhile_cons_of_pos (by simpa using hb.1), List.dropWhile_cons_of_neg (by
            simpa using hb.2)]
      unfold cookies
      rw [splitOn_eq, List.map_cons, hfirst]
      by_cases hwanted : wanted.isPrefixOf rest = true
      · rw [if_pos hwanted, List.find?_cons_of_pos (by rw [isPrefixOf_takeWhile h]; exact hwanted)]
        rfl
      · rw [if_neg hwanted, List.find?_cons_of_neg (by rw [isPrefixOf_takeWhile h]; exact hwanted)]
        split_ifs with hmore
        · refine (cookieScan_eq hne h fuel _ ?_).trans rfl
          rw [List.length_drop]
          omega
        · rw [List.drop_eq_nil_of_le (by omega)]
          cases fuel with
          | zero => rfl
          | succ fuel =>
            unfold cookieScan
            rw [if_pos rfl]
            rfl

/-- **The cookie of a request** is the first one of the name in its header. -/
theorem cookieValue_eq (header : List UInt8) : cookieValue header kSessionCookieName =
    (cookie (headerValue header 1024) kSessionCookieName).getD [] :=
  cookieScan_eq (by decide) (by decide) _ _ (Nat.lt_succ_self _)

/-! ### What the handlers do -/

theorem authorize_cases (a : Server) (r : Request) :
    ((a.authorize r).2 = true ∧ a.storage.loadAdminPassword.set = true ∧ a.sessionToken ≠ [] ∧
      cookie (headerValue r.header 1024) kSessionCookieName = some a.sessionToken ∧
      r.now - a.sessionLastSeenUs ≤ kSessionIdleTimeoutUs ∧
      (a.authorize r).1 = { a with sessionLastSeenUs := r.now
                                   marks := a.marks ++ [Mark.accepted true r.header r.now] }) ∨
    ((a.authorize r).2 = false ∧ a.sessionToken ≠ [] ∧
      cookie (headerValue r.header 1024) kSessionCookieName = some a.sessionToken ∧
      (a.authorize r).1 = { a with sessionToken := [], sessionLastSeenUs := 0
                                   marks := a.marks ++ [Mark.expired a.sessionToken] }) ∨
    ((a.authorize r).2 = false ∧ (a.authorize r).1 = a) := by
  unfold Server.authorize
  by_cases hset : a.storage.loadAdminPassword.set = true
  · rw [if_neg (by rw [hset]; exact Bool.false_ne_true)]
    dsimp only
    by_cases hno : cookieValue r.header kSessionCookieName = [] ∨ a.sessionToken = [] ∨
        cookieValue r.header kSessionCookieName ≠ a.sessionToken
    · rw [if_pos hno]
      exact Or.inr (Or.inr ⟨rfl, rfl⟩)
    · rw [if_neg hno]
      rw [not_or, not_or, not_not] at hno
      obtain ⟨hvalue, htoken, heq⟩ := hno
      have hcookie : cookie (headerValue r.header 1024) kSessionCookieName = some a.sessionToken := by
        rw [cookieValue_eq] at heq hvalue
        rcases hc : cookie (headerValue r.header 1024) kSessionCookieName with _ | value
        · rw [hc] at hvalue
          exact absurd rfl hvalue
        · rw [hc] at heq
          exact congrArg some heq
      by_cases hidle : a.sessionLastSeenUs ≤ 0 ∨ r.now - a.sessionLastSeenUs > kSessionIdleTimeoutUs
      · rw [if_pos hidle]
        exact Or.inr (Or.inl ⟨rfl, htoken, hcookie, rfl⟩)
      · rw [if_neg hidle, hset]
        exact Or.inl ⟨rfl, rfl, htoken, hcookie, by omega, rfl⟩
  · rw [if_pos (by simpa using hset)]
    exact Or.inr (Or.inr ⟨rfl, rfl⟩)

/-- The login that a request carries is right. -/
def right (a : Server) (r : Request) : Bool :=
  a.passwordMatches (formValue (readBody 512 r.body) "user") (formValue (readBody 512 r.body) "password")

/-- A login is answered without a look at its password. -/
def Unread (a : Server) (r : Request) : Prop :=
  a.storage.loadAdminPassword.set = false ∨ r.now < a.loginBlockUntilUs

theorem loginPost_cases (a : Server) (r : Request) :
    (Unread a r ∧ (a.loginPost r).1 = a) ∨
    (¬ Unread a r ∧ right a r = true ∧
      (a.loginPost r).1 = ((a.compare true r.now).startSessionCookie r).1) ∨
    (¬ Unread a r ∧ right a r = false ∧ (a.loginPost r).1 = (a.compare false r.now).fail r.now) := by
  unfold Server.loginPost Unread
  by_cases hset : a.storage.loadAdminPassword.set = true
  · rw [if_neg (by rw [hset]; exact Bool.false_ne_true), hset]
    by_cases hblock : r.now < a.loginBlockUntilUs
    · rw [if_pos hblock]
      exact Or.inl ⟨Or.inr hblock, rfl⟩
    · rw [if_neg hblock]
      have hread : ¬ (true = false ∨ r.now < a.loginBlockUntilUs) := by simpa using hblock
      dsimp only
      rw [show a.passwordMatches (formValue (readBody 512 r.body) "user")
        (formValue (readBody 512 r.body) "password") = right a r from rfl]
      rcases right a r with _ | _
      · exact Or.inr (Or.inr ⟨hread, rfl, rfl⟩)
      · exact Or.inr (Or.inl ⟨hread, rfl, rfl⟩)
  · rw [Bool.not_eq_true] at hset
    rw [hset, Bool.not_false, if_pos rfl]
    exact Or.inl ⟨Or.inl rfl, rfl⟩

/-- What a setup does: nothing, or the storage is changed, and with success a session starts. -/
theorem setupPost_cases {a a' : Server} {r : Request} {reply : Reply}
    (h : a.setupPost r = some (a', reply)) :
    a' = a ∨ a.storage.loadAdminPassword.set = false ∧ ∃ storage,
      a' = { a with storage := storage } ∨
        a' = (({ a with storage := storage } : Server).startSessionCookie r).1 := by
  unfold Server.setupPost at h
  by_cases hset : a.storage.loadAdminPassword.set = true
  · rw [if_pos hset] at h
    cases h
    exact Or.inl rfl
  · rw [if_neg hset] at h
    dsimp only at h
    by_cases hbad : (formValue (readBody 512 r.body) "password").length < 8 ∨
        (formValue (readBody 512 r.body) "password").length > 64 ∨
        formValue (readBody 512 r.body) "password" ≠ formValue (readBody 512 r.body) "confirm"
    · rw [if_pos hbad] at h
      cases h
      exact Or.inl rfl
    · rw [if_neg hbad] at h
      obtain ⟨e, -, h⟩ := Option.map_eq_some_iff.mp h
      refine Or.inr ⟨Bool.eq_false_iff.mpr hset,
        (a.storage.saveAdminPassword (formValue (readBody 512 r.body) "password")).1, ?_⟩
      by_cases hok : e ≠ ESP_OK
      · rw [if_pos hok] at h
        exact Or.inl (Prod.mk.inj h).1.symm
      · rw [if_neg hok] at h
        exact Or.inr (Prod.mk.inj h).1.symm

/-! ### Setup and login -/

/-- The setup handler accepts a password and starts a session. -/
def Accepts (a : Server) (r : Request) (a' : Server) : Prop :=
  ∃ cookie, a.setupPost r = some (a', .redirect (ascii "/") (some cookie))

def submitted (r : Request) : List UInt8 := formValue (readBody 512 r.body) "password"

/-- **Setup and login agree**: the stored password is the submitted one, of 8 to 64 bytes, and it is the
one with which the administrator logs in. -/
structure Agrees (a : Server) (password : List UInt8) : Prop where
  stored : a.storage.loadAdminPassword.password = password
  length : 8 ≤ password.length ∧ password.length ≤ 64
  login : ∀ p, a.passwordMatches (ascii "admin") p = true ↔ p = password

theorem Accepts.spec {a a' : Server} {r : Request} (h : Accepts a r a') :
    a'.storage.loadAdminPassword = ⟨true, cStr (submitted r)⟩ ∧
      8 ≤ (submitted r).length ∧ (submitted r).length ≤ 64 := by
  obtain ⟨cookie, h⟩ := h
  unfold Server.setupPost at h
  by_cases hset : a.storage.loadAdminPassword.set = true
  · rw [if_pos hset] at h
    cases h
  · rw [if_neg hset] at h
    dsimp only at h
    rw [show formValue (readBody 512 r.body) "password" = submitted r from rfl] at h
    by_cases hbad : (submitted r).length < 8 ∨ (submitted r).length > 64 ∨
        submitted r ≠ formValue (readBody 512 r.body) "confirm"
    · rw [if_pos hbad] at h
      cases h
    · rw [if_neg hbad] at h
      obtain ⟨e, he, h⟩ := Option.map_eq_some_iff.mp h
      by_cases hok : e ≠ ESP_OK
      · rw [if_pos hok] at h
        cases h
      · rw [if_neg hok] at h
        rw [not_not] at hok
        subst hok
        obtain ⟨rfl, -⟩ := Prod.mk.inj h
        have hsaved := (Saves.saveSpec_saveKeys (Saves.adminPassword (submitted r)) a.storage).complete he
        refine ⟨hsaved.1, ?_, ?_⟩
        · omega
        · omega

theorem passwordMatches_iff {a : Server} {stored : List UInt8}
    (h : a.storage.loadAdminPassword = ⟨true, stored⟩) (p : List UInt8) :
    a.passwordMatches (ascii "admin") p = true ↔ p = stored := by
  unfold Server.passwordMatches
  rw [h, Bool.true_and, decide_eq_true rfl, Bool.true_and, decide_eq_true_iff]

/-- **Setup and login agree** exactly when the password has no NUL byte. -/
theorem setup_agrees_iff {a a' : Server} {r : Request} (h : Accepts a r a') :
    Agrees a' (submitted r) ↔ 0 ∉ submitted r := by
  obtain ⟨hstored, hlength⟩ := h.spec
  constructor
  · intro hagrees
    have hsame : cStr (submitted r) = submitted r := by
      have hpassword := hagrees.stored
      rw [hstored] at hpassword
      exact hpassword
    intro hmem
    rw [← hsame] at hmem
    have hne := List.mem_takeWhile_imp hmem
    exact absurd hne (by decide)
  · intro hfree
    rw [cStr_eq_self hfree] at hstored
    exact ⟨by rw [hstored], hlength, passwordMatches_iff hstored⟩

/-- A server with nothing stored. -/
def blank : Server where
  storage := .blank

def setup (password : String) : Request where
  body := ascii "password=" ++ ascii password ++ ascii "&confirm=" ++ ascii password
  now := 1000000

/-- The answers of the server to a setup, and to logins with two passwords. -/
def answers (r : Request) (p q : List UInt8) : Option (Reply × List UInt8 × Bool × Bool) :=
  (blank.setupPost r).map fun (a, reply) =>
    (reply, a.storage.loadAdminPassword.password, a.passwordMatches (ascii "admin") p,
      a.passwordMatches (ascii "admin") q)

def zeroCookie : List UInt8 := (blank.startSessionCookie (setup "")).2

/-- **A NUL byte is lost**: of a password of eight bytes one is stored, and only that one logs in. -/
theorem setup_disagrees :
    ∃ a, Accepts blank (setup "a%00bcdefg") a ∧
      submitted (setup "a%00bcdefg") = [97, 0, 98, 99, 100, 101, 102, 103] ∧
      a.storage.loadAdminPassword.password = [97] ∧
      a.passwordMatches (ascii "admin") (submitted (setup "a%00bcdefg")) = false ∧
      a.passwordMatches (ascii "admin") [97] = true := by
  have hruns : answers (setup "a%00bcdefg") (submitted (setup "a%00bcdefg")) [97] =
        some (.redirect (ascii "/") (some zeroCookie), [97], false, true) ∧
      submitted (setup "a%00bcdefg") = [97, 0, 98, 99, 100, 101, 102, 103] := by
    decide +kernel
  obtain ⟨hanswers, hsubmitted⟩ := hruns
  obtain ⟨⟨a, reply⟩, hsetup, heq⟩ := Option.map_eq_some_iff.mp hanswers
  simp only [Prod.mk.injEq] at heq
  obtain ⟨rfl, hstored, hwrong, hright⟩ := heq
  exact ⟨a, ⟨zeroCookie, hsetup⟩, hsubmitted, hstored, hwrong, hright⟩

theorem setup_agrees_iff_plain :
    ∃ a, Accepts blank (setup "correct horse") a ∧ Agrees a (submitted (setup "correct horse")) := by
  have hruns : (blank.setupPost (setup "correct horse")).map Prod.snd =
        some (.redirect (ascii "/") (some zeroCookie)) ∧
      0 ∉ submitted (setup "correct horse") := by
    decide +kernel
  obtain ⟨hreply, hfree⟩ := hruns
  obtain ⟨⟨a, reply⟩, hsetup, rfl⟩ := Option.map_eq_some_iff.mp hreply
  exact ⟨a, ⟨zeroCookie, hsetup⟩, (setup_agrees_iff ⟨zeroCookie, hsetup⟩).mpr hfree⟩

end GpsBase.Web.Admin
