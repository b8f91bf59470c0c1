import GpsBase.Web.Redirects

/-! # The page after the login

`send_unauthorized` puts the URI that was asked for into the query of the login page as it is, and
`login_get_handler` takes it out of there as a field of a form: up to the next `&`, and decoded. It gets the
URI back exactly if the URI has nothing that one of the two takes for something else (`next_eq_iff`). -/

namespace GpsBase.Web.NextPage

open GpsBase.Lib.CText GpsBase.Lib.Search GpsBase.Settings.Records
open GpsBase.Web.Admin GpsBase.Web.Forms
open scoped List

/-! ### The code -/

/-- `accepts_html`, with the `Accept` header. -/
def acceptsHtml (accept : List UInt8) : Bool := decide (ascii "text/html" <:+: headerValue accept 256)

/-- `send_unauthorized`: the `Location` of the redirect, which is set with `c_str`; `none` is the status
401. -/
def sendUnauthorized (isGet : Bool) (accept uri : List UInt8) : Option (List UInt8) :=
  if isGet && acceptsHtml accept then
    some (cStr (if safeLocalPath uri && uri != ascii "/login" then ascii "/login" ++ (ascii "?next=" ++ uri)
      else ascii "/login"))
  else none

/-- `httpd_req_get_url_query_str`: behind the first `?` there is the query, which goes on to the `#`. -/
structure TakesQuery (urlQuery : List UInt8 → List UInt8) : Prop where
  takes : ∀ {path : List UInt8} (text : List UInt8), 63 ∉ path → 35 ∉ path →
    urlQuery (path ++ 63 :: text) = text.takeWhile fun b => b ≠ 35

/-- The page that `login_get_handler` is asked for with the `Location` of `send_unauthorized`. -/
def nextPage (urlQuery : List UInt8 → List UInt8) (isGet : Bool) (accept uri : List UInt8) :
    Option (List UInt8) :=
  (sendUnauthorized isGet accept uri).map fun location => queryParam (urlQuery location) (ascii "next")

/-! ### What is decoded to itself -/

theorem urlDecode_length_le (s : List UInt8) : (urlDecode s).length ≤ s.length := by
  induction s using urlDecode.induct with
  | case1 => exact le_refl _
  | case2 s ih =>
    rw [urlDecode]
    simpa using ih
  | case3 a b s decoded hread ih =>
    rw [urlDecode, hread]
    simp only [if_true, List.length_cons]
    omega
  | case4 a b s decoded rest hread hrest ih =>
    rw [urlDecode, hread]
    simp only [if_neg hrest, List.length_cons] at ih ⊢
    omega
  | case5 b s h43 h37 ih =>
    rw [urlDecode.eq_4 _ _ h43 h37]
    simpa using ih

/-- The bytes of a text with two more behind them. -/
def front (s : List UInt8) : List UInt8 := s.dropLast.dropLast

theorem two_le_length {s : List UInt8} (h : 2 ≤ s.length) : ∃ c d t, s = c :: d :: t := by
  rcases s with _ | ⟨c, _ | ⟨d, t⟩⟩
  · simp at h
  · simp at h
  · exact ⟨c, d, t, rfl⟩

theorem front_cons {b : UInt8} {s : List UInt8} (h : 2 ≤ s.length) : front (b :: s) = b :: front s := by
  obtain ⟨c, d, t, rfl⟩ := two_le_length h
  rfl

theorem front_eq_nil {s : List UInt8} (h : s.length ≤ 2) : front s = [] := by
  refine List.length_eq_zero_iff.mp ?_
  unfold front
  simp only [List.length_dropLast]
  omega

/-- **A text is decoded to itself** exactly if it has no plus sign, and no percent sign with two bytes
behind it. -/
theorem urlDecode_eq_self_iff (s : List UInt8) : urlDecode s = s ↔ 43 ∉ s ∧ 37 ∉ front s := by
  induction s using urlDecode.induct with
  | case1 => exact iff_of_true rfl ⟨List.not_mem_nil, List.not_mem_nil⟩
  | case2 s ih =>
    rw [urlDecode]
    exact iff_of_false (fun h => absurd (List.cons.inj h).1 (by decide)) fun h => h.1 List.mem_cons_self
  | case3 a b s decoded hread ih =>
    have hshort := urlDecode_length_le s
    refine iff_of_false (fun h => ?_) fun h => h.2 ?_
    · rw [urlDecode, hread] at h
      have hlength := congrArg List.length h
      simp only [if_true, List.length_cons] at hlength
      omega
    · rw [front_cons (by simp)]
      exact List.mem_cons_self
  | case4 a b s decoded rest hread hrest ih =>
    have hshort := urlDecode_length_le (a :: b :: s)
    refine iff_of_false (fun h => ?_) fun h => h.2 ?_
    · rw [urlDecode, hread] at h
      have hlength := congrArg List.length h
      simp only [if_neg hrest, List.length_cons] at hlength hshort
      omega
    · rw [front_cons (by simp)]
      exact List.mem_cons_self
  | case5 b s h43 h37 ih =>
    rw [urlDecode.eq_4 _ _ h43 h37, List.cons.injEq, and_iff_right rfl, ih, List.mem_cons, not_or]
    refine and_congr (and_iff_right (fun h => h43 h.symm)).symm ?_
    by_cases hlong : 2 ≤ s.length
    · rw [front_cons hlong, List.mem_cons, not_or]
      refine (and_iff_right fun h => ?_).symm
      obtain ⟨c, d, t, rfl⟩ := two_le_length hlong
      exact h37 c d t h.symm rfl
    · rw [front_eq_nil (s := s) (by omega), front_eq_nil (s := b :: s) (by simp; omega)]

theorem urlDecode_cut_iff {s cut : List UInt8} (hcut : cut <+: s) :
    urlDecode cut = s ↔ cut = s ∧ 43 ∉ s ∧ 37 ∉ front s := by
  rw [← urlDecode_eq_self_iff]
  constructor
  · intro h
    have hshort := urlDecode_length_le cut
    rw [h] at hshort
    obtain rfl := hcut.eq_of_length_le hshort
    exact ⟨rfl, h⟩
  · rintro ⟨rfl, h⟩
    exact h

/-! ### There and back -/

/-- The URI of a request, which is a C string: a local path other than the login page. -/
structure LocalUri (uri : List UInt8) : Prop where
  text : 0 ∉ uri
  safe : safeLocalPath uri = true
  other : uri ≠ ascii "/login"

/-- A URI that comes through the query as it is: it has no `&`, `#` or `+`, and a `%` only among its last
two bytes. -/
def Carried (uri : List UInt8) : Prop := 38 ∉ uri ∧ 35 ∉ uri ∧ 43 ∉ uri ∧ 37 ∉ front uri

instance (uri : List UInt8) : Decidable (Carried uri) := inferInstanceAs (Decidable (_ ∧ _))

theorem queryParam_next (text : List UInt8) :
    queryParam (ascii "next=" ++ text) (ascii "next") = urlDecode (text.takeWhile fun b => b ≠ 38) := by
  have hkeyed : ascii "next" ++ [61] = ascii "next=" := by decide
  have hfound : findText (ascii "next=") (ascii "next=" ++ text ++ [0]) = some 0 := by
    refine findText_eq_some_iff.mpr ⟨Nat.zero_le _, ?_, fun j hj => absurd hj (Nat.not_lt_zero j)⟩
    rw [List.drop_zero, List.append_assoc]
    exact List.prefix_append _ _
  unfold queryParam
  rw [if_neg (by simp [show ascii "next=" = [110, 101, 120, 116, 61] from by decide])]
  dsimp only
  rw [hkeyed, hfound]
  dsimp only
  rw [Nat.zero_add, List.drop_left]

theorem sendUnauthorized_local {accept uri : List UInt8} (haccept : acceptsHtml accept = true) (h : LocalUri uri) :
    sendUnauthorized true accept uri = some (ascii "/login" ++ (ascii "?next=" ++ uri)) := by
  unfold sendUnauthorized
  rw [haccept, Bool.true_and, if_pos rfl, h.safe, Bool.true_and, if_pos (bne_iff_ne.mpr h.other)]
  have hplain : 0 ∉ ascii "/login" ++ (ascii "?next=" ++ uri) := by
    rw [List.mem_append, List.mem_append, not_or, not_or]
    exact ⟨by decide, by decide, h.text⟩
  exact congrArg some (cStr_eq_self hplain)

theorem nextPage_eq {urlQuery : List UInt8 → List UInt8} (hquery : TakesQuery urlQuery) {accept uri : List UInt8}
    (haccept : acceptsHtml accept = true) (h : LocalUri uri) : nextPage urlQuery true accept uri =
      some (urlDecode ((uri.takeWhile fun b => b ≠ 35).takeWhile fun b => b ≠ 38)) := by
  unfold nextPage
  rw [sendUnauthorized_local haccept h, Option.map_some]
  have htext : ascii "/login" ++ (ascii "?next=" ++ uri) = ascii "/login" ++ 63 :: (ascii "next=" ++ uri) := rfl
  rw [htext, hquery.takes _ (by decide) (by decide)]
  have hkey : (ascii "next=" ++ uri).takeWhile (fun b => b ≠ 35) =
      ascii "next=" ++ uri.takeWhile fun b => b ≠ 35 := by
    rw [List.takeWhile_append_of_pos (by decide +kernel)]
  rw [hkey, queryParam_next]

/-- **The page that was asked for is the page after the login** exactly if its URI comes through the query
as it is. -/
theorem next_eq_iff {urlQuery : List UInt8 → List UInt8} (hquery : TakesQuery urlQuery) {accept uri : List UInt8}
    (haccept : acceptsHtml accept = true) (h : LocalUri uri) :
    nextPage urlQuery true accept uri = some uri ↔ Carried uri := by
  have hstart : ((uri.takeWhile fun b => b ≠ 35).takeWhile fun b => b ≠ 38) <+: uri :=
    (List.takeWhile_prefix _).trans (List.takeWhile_prefix _)
  rw [nextPage_eq hquery haccept h, Option.some.injEq, urlDecode_cut_iff hstart]
  unfold Carried
  have hwhole : ((uri.takeWhile fun b => b ≠ 35).takeWhile fun b => b ≠ 38) = uri ↔ 38 ∉ uri ∧ 35 ∉ uri := by
    rw [List.takeWhile_takeWhile, List.takeWhile_eq_self_iff]
    simp only [ne_eq, decide_not, Bool.not_eq_true', decide_eq_false_iff_not]
    constructor
    · exact fun hall => ⟨fun hmem => by simpa using hall 38 hmem, fun hmem => by simpa using hall 35 hmem⟩
    · rintro ⟨h38, h35⟩ b hb
      have hb38 : b ≠ 38 := fun heq => h38 (heq ▸ hb)
      have hb35 : b ≠ 35 := fun heq => h35 (heq ▸ hb)
      simp [hb38, hb35]
  rw [hwhole, and_assoc]

/-- What is behind the first `?` of a URL, up to a `#`. -/
def queryOf (url : List UInt8) : List UInt8 := ((url.takeWhile fun b => b ≠ 35).dropWhile fun b => b ≠ 63).drop 1

theorem takes_queryOf : TakesQuery queryOf where
  takes text h63 h35 := by
    unfold queryOf
    rw [List.takeWhile_append_of_pos (by simpa using fun b hb => ne_of_mem_of_not_mem hb h35),
      List.takeWhile_cons_of_pos (by decide),
      List.dropWhile_append_of_pos (by simpa using fun b hb => ne_of_mem_of_not_mem hb h63),
      List.dropWhile_cons_of_neg (by decide)]
    rfl

theorem next_of_plain : nextPage queryOf true (ascii "text/html,*/*") (ascii "/files?path=/2025/06") =
    some (ascii "/files?path=/2025/06") :=
  (next_eq_iff takes_queryOf (by decide +kernel) ⟨by decide +kernel, by decide +kernel, by decide +kernel⟩).mpr
    (by decide +kernel)

/-- **A download link of the file browser comes back decoded**, and then names another file. -/
theorem next_of_escaped : LocalUri (ascii "/files/download?path=%2FA%26B.obs") ∧
    nextPage queryOf true (ascii "text/html,*/*") (ascii "/files/download?path=%2FA%26B.obs") =
      some (ascii "/files/download?path=/A&B.obs") ∧
    nextPage queryOf true (ascii "text/html,*/*") (ascii "/files/download?path=%2FA%26B.obs") ≠
      some (ascii "/files/download?path=%2FA%26B.obs") :=
  ⟨⟨by decide +kernel, by decide +kernel, by decide +kernel⟩, by decide +kernel, by decide +kernel⟩

end GpsBase.Web.NextPage
