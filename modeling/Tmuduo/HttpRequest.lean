import Mathlib.Data.Finmap
import Mathlib.Data.List.DropRight
import Tmuduo.Buffer
import Tmuduo.Search
import Tmuduo.Timestamp

/-!
# HTTP requests

`HttpRequest` is `tmuduo::net::HttpRequest`, with the setters that the parser calls. A pair of
pointers into the input is the list of the bytes between them.

`HttpRequest.untimed` forgets `receiveTime`, the one field that depends on when a line was
read and not on what it says.
-/

set_option autoImplicit false

namespace Tmuduo

/-- The assertions of the parser : the one of `HttpRequest.h`, and those of its `Buffer`. -/
inductive HttpAssert
  | setMethod
  | buffer (e : BufferAssert)
  deriving DecidableEq, Repr

/-- `HttpRequest::Method`. -/
inductive Method
  | kInvalid
  | kGet
  | kPost
  | kHead
  | kPut
  | kDelete
  deriving DecidableEq, Repr

/-- `HttpRequest::Version`. -/
inductive Version
  | kUnknown
  | kHttp1_0
  | kHttp1_1
  deriving DecidableEq, Repr

/-- `tmuduo::net::HttpRequest`. -/
structure HttpRequest where
  method : Method
  version : Version
  path : Bytes
  query : Bytes
  receiveTime : Timestamp
  headers : Finmap fun _ : Bytes => Bytes
  body : Bytes
  deriving DecidableEq

/-- `isspace` in the C locale. -/
def isspace (c : UInt8) : Bool :=
  c == 32 || (9 ≤ c && c ≤ 13)

/-- The method that `setMethod` sets for the word `m`. -/
def Method.ofBytes (m : Bytes) : Method :=
  if m = ascii "GET" then .kGet
  else if m = ascii "POST" then .kPost
  else if m = ascii "HEAD" then .kHead
  else if m = ascii "PUT" then .kPut
  else if m = ascii "DELETE" then .kDelete
  else .kInvalid

/-- `methodToString`. -/
def Method.toBytes : Method → Bytes
  | kGet => ascii "GET"
  | kPost => ascii "POST"
  | kHead => ascii "HEAD"
  | kPut => ascii "PUT"
  | kDelete => ascii "DELETE"
  | kInvalid => ascii "UNKNOWN"

namespace HttpRequest

/-- `HttpRequest::HttpRequest`. -/
def new : HttpRequest where
  method := .kInvalid
  version := .kUnknown
  path := []
  query := []
  receiveTime := Timestamp.invalid
  headers := ∅
  body := []

variable (r : HttpRequest)

def setVersion (v : Version) : HttpRequest := { r with version := v }

def setMethod (m : Bytes) : Except HttpAssert (Bool × HttpRequest) := do
  check (r.method = .kInvalid) .setMethod
  let method := Method.ofBytes m
  return (method ≠ .kInvalid, { r with method := method })

def setPath (path : Bytes) : HttpRequest := { r with path := path }

def setQuery (query : Bytes) : HttpRequest := { r with query := query }

def setReceiveTime (t : Timestamp) : HttpRequest := { r with receiveTime := t }

def setBody (body : Bytes) : HttpRequest := { r with body := body }

/-- `addHeader`, of a line whose first colon is at position `colon`. The loop after the colon
runs while the byte is not a space. -/
def addHeader (line : Bytes) (colon : ℕ) : HttpRequest :=
  let fieldName := line.take colon
  let fieldValue := (line.drop (colon + 1)).dropWhile fun c => !isspace c
  { r with headers := r.headers.insert fieldName (fieldValue.rdropWhile isspace) }

def getHeader (fieldName : Bytes) : Bytes :=
  (r.headers.lookup fieldName).getD []

/-- The request without the time of its receipt. -/
def untimed : HttpRequest := { r with receiveTime := Timestamp.invalid }

variable {r}

theorem setMethod_ok (h : r.method = .kInvalid) (m : Bytes) :
    r.setMethod m =
      .ok (Method.ofBytes m ≠ .kInvalid, { r with method := Method.ofBytes m }) := by
  simp [setMethod, h]

end HttpRequest

theorem Method.ofBytes_toBytes : ∀ m : Method, m ≠ .kInvalid → Method.ofBytes m.toBytes = m := by
  intro m
  cases m <;> decide

theorem Method.toBytes_ofBytes {m : Bytes} (h : Method.ofBytes m ≠ .kInvalid) :
    (Method.ofBytes m).toBytes = m := by
  unfold ofBytes at h ⊢
  split_ifs at h ⊢ with hm hm hm hm hm
  · exact hm.symm
  · exact hm.symm
  · exact hm.symm
  · exact hm.symm
  · exact hm.symm
  · exact absurd rfl h

end Tmuduo
