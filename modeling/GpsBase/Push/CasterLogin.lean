import GpsBase.Lib.Crlf
import GpsBase.Push.NtripPush

/-! # What the caster is told

The request of `connect_caster` as a caster reads it: lines up to an empty one, of which the first has the
mountpoint, with the password before it in the old protocol, and in the new one the password is in a header.
The caster reads what is configured exactly if none of the two has a byte in it that ends its field
(`read_request_iff`). -/

namespace GpsBase.Push.CasterLogin

open GpsBase.Lib.Crlf GpsBase.Push.NtripPush
open GpsBase.Lib.CText (ascii)

/-! ### The caster -/

/-- What a request says; the new protocol has a user as well. -/
structure Login where
  mountpoint : List UInt8
  user : Option (List UInt8)
  password : List UInt8
  headers : List (List UInt8)
  rest : List UInt8
  deriving DecidableEq

/-- The first line of the old protocol: the password up to the first space, and the mountpoint. -/
def sourceLine (line : List UInt8) : Option (List UInt8 × List UInt8) :=
  (after (ascii "SOURCE ") line).bind fun s =>
  (splitFirst 32 s).bind fun r => (after (ascii "/") r.2).map fun mountpoint => (r.1, mountpoint)

/-- The first line of the new protocol: the target up to the next space, and the version. -/
def postLine (line : List UInt8) : Option (List UInt8) :=
  (after (ascii "POST ") line).bind fun s =>
  (splitFirst 32 s).bind fun r => if r.2 = ascii "HTTP/1.1" then after (ascii "/") r.1 else none

/-- The user and the password of the first header with them. -/
def basicHeader (unbase64 : List UInt8 → Option (List UInt8)) (headers : List (List UInt8)) :
    Option (List UInt8 × List UInt8) :=
  (headers.findSome? (after (ascii "Authorization: Basic "))).bind fun token =>
  (unbase64 token).bind (splitFirst 58)

/-- **The caster reads a request.** -/
def read (unbase64 : List UInt8 → Option (List UInt8)) (protocol : NtripProtocol) (s : List UInt8) :
    Option Login :=
  match parse [] s with
  | some (first :: headers, rest) =>
    match protocol with
    | .kV1 => (sourceLine first).map fun r => ⟨r.2, none, r.1, headers, rest⟩
    | .kV2 => (postLine first).bind fun mountpoint =>
        (basicHeader unbase64 headers).map fun r => ⟨mountpoint, some r.1, r.2, headers, rest⟩
  | _ => none

/-- Base64 is correct: what is encoded is decoded to itself, and has no line breaks in it. -/
structure Base64 (base64 : List UInt8 → List UInt8) (unbase64 : List UInt8 → Option (List UInt8)) : Prop where
  inverse : ∀ s, unbase64 (base64 s) = some s
  plain : ∀ s, Plain (base64 s)

/-! ### What is sent -/

/-- The header `Host`. -/
def hostLine (k : Constants) : List UInt8 := ascii "Host: " ++ (k.host ++ (ascii ":" ++ ascii (toString k.port)))

def headerLines (k : Constants) (mountpoint password : List UInt8) : List (List UInt8) :=
  match k.protocol with
  | .kV1 => [ascii "Source-Agent: NTRIP ESP32BaseStation/2.0"]
  | .kV2 =>
    [hostLine k, ascii "Ntrip-Version: Ntrip/2.0", ascii "User-Agent: NTRIP ESP32BaseStation/2.0",
      ascii "Authorization: Basic " ++ k.base64 (mountpoint ++ 58 :: password),
      ascii "Content-Type: application/octet-stream", ascii "Connection: keep-alive"]

def firstLine (k : Constants) (mountpoint password : List UInt8) : List UInt8 :=
  match k.protocol with
  | .kV1 => ascii "SOURCE " ++ (password ++ 32 :: (ascii "/" ++ mountpoint))
  | .kV2 => ascii "POST " ++ ((ascii "/" ++ mountpoint) ++ 32 :: ascii "HTTP/1.1")

theorem request_eq (k : Constants) (mountpoint password : List UInt8) : request k mountpoint password =
    render (firstLine k mountpoint password :: headerLines k mountpoint password) ++ [13, 10] := by
  unfold request firstLine headerLines hostLine render
  rcases k.protocol
  · have htail : ascii "\r\nSource-Agent: NTRIP ESP32BaseStation/2.0\r\n\r\n" =
        [13, 10] ++ ascii "Source-Agent: NTRIP ESP32BaseStation/2.0" ++ [13, 10, 13, 10] := by decide +kernel
    have hspace : ascii " /" = 32 :: ascii "/" := by decide
    dsimp only
    rw [htail, hspace]
    simp
  · have hhost : ascii " HTTP/1.1\r\nHost: " = 32 :: ascii "HTTP/1.1" ++ [13, 10] ++ ascii "Host: " := by
      decide +kernel
    have hversion : ascii "\r\nNtrip-Version: Ntrip/2.0\r\nUser-Agent: NTRIP ESP32BaseStation/2.0\r\n" =
        [13, 10] ++ ascii "Ntrip-Version: Ntrip/2.0" ++ [13, 10] ++
          ascii "User-Agent: NTRIP ESP32BaseStation/2.0" ++ [13, 10] := by decide +kernel
    have htail : ascii "\r\nContent-Type: application/octet-stream\r\nConnection: keep-alive\r\n\r\n" =
        [13, 10] ++ ascii "Content-Type: application/octet-stream" ++ [13, 10] ++
          ascii "Connection: keep-alive" ++ [13, 10, 13, 10] := by decide +kernel
    have hpost : ascii "POST /" = ascii "POST " ++ ascii "/" := by decide
    have hcolon : ascii ":" = [58] := by decide
    dsimp only
    rw [hhost, hversion, htail, hpost, hcolon]
    simp

def login (k : Constants) (mountpoint password : List UInt8) : Login where
  mountpoint := mountpoint
  user := match k.protocol with
    | .kV1 => none
    | .kV2 => some mountpoint
  password := password
  headers := headerLines k mountpoint password
  rest := []

/-- The bytes that end a field: none of them is in the mountpoint or, in the old protocol, in the
password. -/
def Clean (protocol : NtripProtocol) (mountpoint password : List UInt8) : Prop :=
  match protocol with
  | .kV1 => Plain mountpoint ∧ Plain password ∧ 32 ∉ password
  | .kV2 => Plain mountpoint ∧ 32 ∉ mountpoint ∧ 58 ∉ mountpoint

instance (protocol : NtripProtocol) (mountpoint password : List UInt8) :
    Decidable (Clean protocol mountpoint password) :=
  match protocol with
  | .kV1 => inferInstanceAs (Decidable (_ ∧ _))
  | .kV2 => inferInstanceAs (Decidable (_ ∧ _))

/-! ### The caster reads what is sent -/

theorem sourceLine_eq_some_iff {line mountpoint password : List UInt8} :
    sourceLine line = some (password, mountpoint) ↔
      line = ascii "SOURCE " ++ (password ++ 32 :: (ascii "/" ++ mountpoint)) ∧ 32 ∉ password := by
  unfold sourceLine
  constructor
  · intro h
    obtain ⟨s, hs, h⟩ := Option.bind_eq_some_iff.mp h
    obtain ⟨⟨x, y⟩, hxy, h⟩ := Option.bind_eq_some_iff.mp h
    obtain ⟨z, hz, heq⟩ := Option.map_eq_some_iff.mp h
    obtain ⟨rfl, rfl⟩ := Prod.mk.inj heq
    obtain ⟨rfl, hspace⟩ := splitFirst_eq_some_iff.mp hxy
    rw [after_eq_some_iff] at hs hz
    dsimp only at hz
    exact ⟨by rw [hs, hz], hspace⟩
  · rintro ⟨rfl, hspace⟩
    rw [after_eq_some_iff.mpr rfl, Option.bind_some, splitFirst_eq_some_iff.mpr ⟨rfl, hspace⟩, Option.bind_some,
      after_eq_some_iff.mpr rfl]
    rfl

theorem postLine_eq_some_iff {line mountpoint : List UInt8} : postLine line = some mountpoint ↔
    line = ascii "POST " ++ ((ascii "/" ++ mountpoint) ++ 32 :: ascii "HTTP/1.1") ∧ 32 ∉ mountpoint := by
  have hslash : 32 ∉ ascii "/" ++ mountpoint ↔ 32 ∉ mountpoint := by
    rw [List.mem_append, not_or, and_iff_right (by decide)]
  unfold postLine
  rw [← hslash]
  constructor
  · intro h
    obtain ⟨s, hs, hsplit⟩ := Option.bind_eq_some_iff.mp h
    obtain ⟨⟨x, y⟩, hxy, hafter⟩ := Option.bind_eq_some_iff.mp hsplit
    split_ifs at hafter with hversion
    obtain ⟨rfl, hspace⟩ := splitFirst_eq_some_iff.mp hxy
    rw [after_eq_some_iff] at hs hafter
    dsimp only at hversion hafter
    rw [← hafter]
    exact ⟨by rw [hs, hversion], hspace⟩
  · rintro ⟨rfl, hspace⟩
    rw [after_eq_some_iff.mpr rfl, Option.bind_some, splitFirst_eq_some_iff.mpr ⟨rfl, hspace⟩, Option.bind_some]
    exact (if_pos rfl).trans (after_eq_some_iff.mpr rfl)

theorem after_of_ne {a b : UInt8} (h : a ≠ b) (front s : List UInt8) : after (a :: front) (b :: s) = none := by
  unfold after
  rw [if_neg]
  intro hpre
  exact h (List.cons_prefix_cons.mp (List.isPrefixOf_iff_prefix.mp hpre)).1

variable {k : Constants} {unbase64 : List UInt8 → Option (List UInt8)} {mountpoint password : List UInt8}

/-- The caster takes the user and the password from the header with them. -/
theorem basicHeader_headerLines (hbase : Base64 k.base64 unbase64) (hprotocol : k.protocol = .kV2) :
    basicHeader unbase64 (headerLines k mountpoint password) = splitFirst 58 (mountpoint ++ 58 :: password) := by
  have htoken : (headerLines k mountpoint password).findSome? (after (ascii "Authorization: Basic ")) =
      some (k.base64 (mountpoint ++ 58 :: password)) := by
    unfold headerLines
    rw [hprotocol]
    dsimp only
    have hhost : after (ascii "Authorization: Basic ") (hostLine k) = none :=
      after_of_ne (a := 65) (b := 72) (by decide) _ _
    have hversion : after (ascii "Authorization: Basic ") (ascii "Ntrip-Version: Ntrip/2.0") = none := by
      decide +kernel
    have hagent : after (ascii "Authorization: Basic ") (ascii "User-Agent: NTRIP ESP32BaseStation/2.0") =
        none := by decide +kernel
    rw [List.findSome?_cons, hhost, List.findSome?_cons, hversion, List.findSome?_cons, hagent,
      List.findSome?_cons, after_eq_some_iff.mpr rfl]
  unfold basicHeader
  rw [htoken, Option.bind_some, hbase.inverse, Option.bind_some]

theorem plain_headerLines (hbase : Base64 k.base64 unbase64) (hhost : Plain (hostLine k)) :
    ∀ line ∈ headerLines k mountpoint password, line ≠ [] ∧ Plain line := by
  have hagent : ascii "Source-Agent: NTRIP ESP32BaseStation/2.0" ≠ [] ∧
      Plain (ascii "Source-Agent: NTRIP ESP32BaseStation/2.0") := by decide +kernel
  have hne : ∀ s, ascii "Authorization: Basic " ++ s ≠ [] := by
    intro s hnil
    exact absurd (List.append_eq_nil_iff.mp hnil).1 (by decide +kernel)
  unfold headerLines
  rcases k.protocol
  · exact List.forall_mem_singleton.mpr hagent
  · have hname : Plain (ascii "Authorization: Basic ") := by decide +kernel
    simp only [List.forall_mem_cons]
    refine ⟨⟨?_, hhost⟩, by decide +kernel, by decide +kernel, ⟨hne _, plain_append.mpr ⟨hname, hbase.plain _⟩⟩,
      by decide +kernel, by decide +kernel, fun _ h => absurd h List.not_mem_nil⟩
    intro hnil
    exact absurd (List.append_eq_nil_iff.mp hnil).1 (by decide +kernel)

theorem parse_request (hbase : Base64 k.base64 unbase64) (hhost : Plain (hostLine k))
    (hfirst : Plain (firstLine k mountpoint password)) : parse [] (request k mountpoint password) =
      some (firstLine k mountpoint password :: headerLines k mountpoint password, []) := by
  refine parse_eq_some_iff.mpr ⟨request_eq k mountpoint password, ?_⟩
  refine List.forall_mem_cons.mpr ⟨⟨?_, hfirst⟩, plain_headerLines hbase hhost⟩
  unfold firstLine
  rcases k.protocol <;> exact fun hnil => absurd (List.append_eq_nil_iff.mp hnil).1 (by decide +kernel)

theorem plain_source : Plain (ascii "SOURCE " ++ (password ++ 32 :: (ascii "/" ++ mountpoint))) ↔
    Plain mountpoint ∧ Plain password := by
  have hconstant : Plain (ascii "SOURCE ") ∧ Plain ([32] ++ ascii "/") := by decide +kernel
  have hsplit : 32 :: (ascii "/" ++ mountpoint) = [32] ++ ascii "/" ++ mountpoint := rfl
  rw [hsplit, plain_append, plain_append, plain_append]
  exact ⟨fun ⟨_, hpassword, _, hmountpoint⟩ => ⟨hmountpoint, hpassword⟩,
    fun ⟨hmountpoint, hpassword⟩ => ⟨hconstant.1, hpassword, hconstant.2, hmountpoint⟩⟩

theorem plain_post : Plain (ascii "POST " ++ ((ascii "/" ++ mountpoint) ++ 32 :: ascii "HTTP/1.1")) ↔
    Plain mountpoint := by
  have hconstant : Plain (ascii "POST ") ∧ Plain (ascii "/") ∧ Plain (32 :: ascii "HTTP/1.1") := by decide +kernel
  rw [plain_append, plain_append, plain_append]
  exact ⟨fun h => h.2.1.2, fun h => ⟨hconstant.1, ⟨hconstant.2.1, h⟩, hconstant.2.2⟩⟩

theorem read_source_iff (hbase : Base64 k.base64 unbase64) (hhost : Plain (hostLine k))
    (hprotocol : k.protocol = .kV1) :
    read unbase64 .kV1 (request k mountpoint password) = some (login k mountpoint password) ↔
      Plain mountpoint ∧ Plain password ∧ 32 ∉ password := by
  unfold read login
  rw [hprotocol]
  constructor
  · intro h
    split at h
    · next first headers rest hparse =>
      obtain ⟨⟨password', mountpoint'⟩, hsource, heq⟩ := Option.map_eq_some_iff.mp h
      obtain ⟨rfl, -, rfl, -, -⟩ := Login.mk.inj heq
      obtain ⟨rfl, hspace⟩ := sourceLine_eq_some_iff.mp hsource
      have hlines := (parse_eq_some_iff.mp hparse).2
      obtain ⟨hmountpoint, hpassword⟩ := plain_source.mp (hlines _ List.mem_cons_self).2
      exact ⟨hmountpoint, hpassword, hspace⟩
    · cases h
  · rintro ⟨hmountpoint, hpassword, hspace⟩
    have hfirst : firstLine k mountpoint password =
        ascii "SOURCE " ++ (password ++ 32 :: (ascii "/" ++ mountpoint)) := by
      unfold firstLine
      rw [hprotocol]
    rw [parse_request hbase hhost (hfirst ▸ plain_source.mpr ⟨hmountpoint, hpassword⟩), hfirst]
    dsimp only
    rw [sourceLine_eq_some_iff.mpr ⟨rfl, hspace⟩]
    rfl

theorem read_post_iff (hbase : Base64 k.base64 unbase64) (hhost : Plain (hostLine k))
    (hprotocol : k.protocol = .kV2) :
    read unbase64 .kV2 (request k mountpoint password) = some (login k mountpoint password) ↔
      Plain mountpoint ∧ 32 ∉ mountpoint ∧ 58 ∉ mountpoint := by
  unfold read login
  rw [hprotocol]
  constructor
  · intro h
    split at h
    · next first headers rest hparse =>
      obtain ⟨mountpoint', hpost, h⟩ := Option.bind_eq_some_iff.mp h
      obtain ⟨⟨user, password'⟩, hbasic, heq⟩ := Option.map_eq_some_iff.mp h
      obtain ⟨rfl, huser, rfl, rfl, -⟩ := Login.mk.inj heq
      obtain ⟨rfl, hspace⟩ := postLine_eq_some_iff.mp hpost
      have hlines := (parse_eq_some_iff.mp hparse).2
      have hmountpoint := plain_post.mp (hlines _ List.mem_cons_self).2
      rw [basicHeader_headerLines hbase hprotocol] at hbasic
      have hcolon : 58 ∉ user := (splitFirst_eq_some_iff.mp hbasic).2
      have hsame : user = mountpoint' := Option.some.inj huser
      rw [hsame] at hcolon
      exact ⟨hmountpoint, hspace, hcolon⟩
    · cases h
  · rintro ⟨hmountpoint, hspace, hcolon⟩
    have hfirst : firstLine k mountpoint password =
        ascii "POST " ++ ((ascii "/" ++ mountpoint) ++ 32 :: ascii "HTTP/1.1") := by
      unfold firstLine
      rw [hprotocol]
    rw [parse_request hbase hhost (hfirst ▸ plain_post.mpr hmountpoint), hfirst]
    dsimp only
    rw [postLine_eq_some_iff.mpr ⟨rfl, hspace⟩, Option.bind_some, basicHeader_headerLines hbase hprotocol,
      splitFirst_eq_some_iff.mpr ⟨rfl, hcolon⟩]
    rfl

/-- **The caster reads what is configured** exactly if no byte in it ends a field. -/
theorem read_request_iff (hbase : Base64 k.base64 unbase64) (hhost : Plain (hostLine k)) :
    read unbase64 k.protocol (request k mountpoint password) = some (login k mountpoint password) ↔
      Clean k.protocol mountpoint password := by
  rcases hprotocol : k.protocol
  · exact read_source_iff hbase hhost hprotocol
  · exact read_post_iff hbase hhost hprotocol

end GpsBase.Push.CasterLogin
