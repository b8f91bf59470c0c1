import GpsBase.Lib.CText
import GpsBase.Lib.Search
import Mathlib.Data.Int.Order.Basic

/-! # Forms

How the web server takes the fields out of the body of a request. Every byte can be in a field: one
that cannot stand in a form for itself is sent as `%` and two digits. -/

namespace GpsBase.Web.Forms

open GpsBase.Lib.CText GpsBase.Lib.Search

/-- `read_body`; a body that is too long, or does not arrive, is none. -/
def readBody (maxLength : ℕ) (received : List UInt8) : List UInt8 :=
  if maxLength < received.length then [] else received

/-- `strtol` to base 16 of at most two characters, and what it leaves of them. -/
def strtol16 (s : List UInt8) : ℤ × List UInt8 :=
  let (neg, rest) := signOf (s.dropWhile isSpace)
  let digits := rest.takeWhile fun b => (hexDigit b).isSome
  if digits = [] then (0, s)
  else
    let n : ℤ := digits.foldl (fun n b => 16 * n + (hexDigit b).getD 0) 0
    (if neg then -n else n, rest.drop digits.length)

/-- `url_decode`. A `%` that no number follows is dropped. -/
def urlDecode : List UInt8 → List UInt8
  | [] => []
  | 43 :: s => 32 :: urlDecode s
  | 37 :: a :: b :: s =>
    let (decoded, rest) := strtol16 (cStr [a, b])
    if rest = [] then UInt8.ofNat (decoded % 256).toNat :: urlDecode s else urlDecode (a :: b :: s)
  | b :: s => b :: urlDecode s

/-- The loop of `form_value` from the start of a field; `keyed` is the key and `=`. Where the key itself
has a separator, the length of the value wraps around and the value is all that is left. There are `fuel`
rounds. -/
def fieldScan (keyed : List UInt8) : ℕ → List UInt8 → Option (List UInt8)
  | 0, _ => none
  | fuel + 1, body =>
    let field := body.takeWhile fun b => b ≠ 38
    if keyed.isPrefixOf body then
      some (if keyed.length ≤ field.length then field.drop keyed.length else body.drop keyed.length)
    else if field.length < body.length then fieldScan keyed fuel (body.drop (field.length + 1))
    else none

/-- `form_value`: the first field of the key, decoded. -/
def fieldValue (body key : List UInt8) : List UInt8 :=
  match fieldScan (key ++ [61]) (body.length + 1) body with
  | some text => urlDecode text
  | none => []

/-- `form_value` with the name of a field. -/
def formValue (body : List UInt8) (name : String) : List UInt8 := fieldValue body (ascii name)

example : formValue (ascii "a=1&bc=x+y%2B%zz&b=2") "bc" = ascii "x y+zz" := by decide +kernel

/-- `query_param`, of the query that `httpd_req_get_url_query_str` returns; a NUL stands behind it. -/
def queryParam (query key : List UInt8) : List UInt8 :=
  if query = [] then []
  else
    let keyed := key ++ [61]
    match findText keyed (query ++ [0]) with
    | none => []
    | some pos => urlDecode ((query.drop (pos + keyed.length)).takeWhile fun b => b ≠ 38)

end GpsBase.Web.Forms
