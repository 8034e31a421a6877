import Tmuduo.HttpContext

/-!
# The HTTP server

`HttpResponse` and the part of `HttpServer` that handles one connection. The http callback is a
parameter, the calls on the connection are recorded in `calls`, and `requests` records the
requests that the callback was invoked with.
-/

set_option autoImplicit false

namespace Tmuduo

/-! ## Responses -/

/-- `HttpResponse::HttpStatusCode`. -/
inductive HttpStatusCode
  | kUnknown
  | k200Ok
  | k301MovedPermanently
  | k400BadRequest
  | k404NotFound
  deriving DecidableEq, Repr

def HttpStatusCode.toNat : HttpStatusCode → ℕ
  | kUnknown => 0
  | k200Ok => 200
  | k301MovedPermanently => 301
  | k400BadRequest => 400
  | k404NotFound => 404

/-- `tmuduo::net::HttpResponse`. The headers are in the order of `std::map`. -/
structure HttpResponse where
  headers : List (Bytes × Bytes)
  statusCode : HttpStatusCode
  statusMessage : Bytes
  closeConnection : Bool
  body : Bytes
  deriving DecidableEq, Repr

namespace HttpResponse

/-- `HttpResponse::HttpResponse`. -/
def new (close : Bool) : HttpResponse where
  headers := []
  statusCode := .kUnknown
  statusMessage := []
  closeConnection := close
  body := []

/-- `headers_[key] = value`. -/
def insertHeader (key value : Bytes) : List (Bytes × Bytes) → List (Bytes × Bytes)
  | [] => [(key, value)]
  | (k, v) :: headers =>
    if key = k then (key, value) :: headers
    else if key < k then (key, value) :: (k, v) :: headers
    else (k, v) :: insertHeader key value headers

variable (r : HttpResponse)

def addHeader (key value : Bytes) : HttpResponse :=
  { r with headers := insertHeader key value r.headers }

def setContentType (contentType : Bytes) : HttpResponse :=
  r.addHeader (ascii "Content-Type") contentType

/-- The lines before the headers of the response. -/
def statusLines : Bytes :=
  snprintf 32 (ascii "HTTP/1.1 " ++ ascii (toString r.statusCode.toNat) ++ ascii " ") ++
    r.statusMessage ++ ascii "\r\n" ++
    if r.closeConnection then ascii "Connection: close\r\n"
    else snprintf 32 (ascii "Content-Length: " ++ ascii (toString r.body.length) ++
      ascii "\r\n") ++ ascii "Connection: keep-Alive\r\n"

def appendToBuffer (output : ValidBuffer) : ValidBuffer :=
  let output := output.append r.statusLines
  let output := r.headers.foldl
    (fun output header => output.append (header.1 ++ ascii ": " ++ header.2 ++ ascii "\r\n")) output
  (output.append (ascii "\r\n")).append r.body

end HttpResponse

/-! ## One connection of the server -/

/-- What the server calls on its connection. -/
inductive ConnCall
  | send (message : Bytes)
  | shutdown
  deriving DecidableEq, Repr

/-- A connection of the server : its context and input buffer, the requests given to the http
callback, and the calls made on it. -/
structure HttpConn where
  context : HttpContext
  input : ValidBuffer
  requests : List HttpRequest
  calls : List ConnCall

namespace HttpConn

/-- The connection after `onConnection`. -/
def new : HttpConn := ⟨.new, .new, [], []⟩

variable (httpCallback : HttpRequest → HttpResponse → HttpResponse) (s : HttpConn)

/-- `HttpServer::onRequest`. -/
def onRequest (req : HttpRequest) : HttpConn :=
  let connection := req.getHeader (ascii "Connection")
  let close := connection = ascii "close" ∨
    (req.version = .kHttp1_0 ∧ connection ≠ ascii "Keep-Alive")
  let response := httpCallback req (.new close)
  let buf := response.appendToBuffer .new
  { s with
    requests := s.requests ++ [req]
    calls := s.calls ++ .send buf.content ::
      if response.closeConnection then [.shutdown] else [] }

/-- `HttpServer::onMessage`. `none` : the call does not return. -/
def onMessage (receiveTime : Timestamp) : Except HttpAssert (Option HttpConn) := do
  match ← s.context.parseRequest s.input receiveTime with
  | none => return none
  | some p =>
    let s := { s with context := p.context, input := p.buf }
    let s := if p.ok then s else
      { s with calls := s.calls ++
          [.send (ascii "HTTP/1.1 400 Bad Request\r\n\r\n"), .shutdown] }
    if s.context.gotAll then
      let s := onRequest httpCallback s s.context.request
      return some { s with context := s.context.reset }
    else return some s

/-- The chunks arrive one at a time, each is appended to the input buffer and `onMessage` is
called. -/
def deliver : List (Bytes × Timestamp) → HttpConn → Except HttpAssert (Option HttpConn)
  | [], s => return some s
  | (chunk, receiveTime) :: chunks, s => do
    match ← onMessage httpCallback { s with input := s.input.append chunk } receiveTime with
    | none => return none
    | some s' => deliver chunks s'

variable {httpCallback s}

/-- A call that does not complete the request. -/
theorem onMessage_suspended {receiveTime : Timestamp} {p : Parsed}
    (h : s.context.parseRequest s.input receiveTime = .ok (some p)) (hok : p.ok = true)
    (hgot : p.context.gotAll = false) :
    onMessage httpCallback s receiveTime =
      .ok (some { s with context := p.context, input := p.buf }) := by
  simp [onMessage, h, hok, hgot]

/-- A call that completes the request. -/
theorem onMessage_gotAll {receiveTime : Timestamp} {p : Parsed}
    (h : s.context.parseRequest s.input receiveTime = .ok (some p)) (hok : p.ok = true)
    (hgot : p.context.gotAll = true) :
    onMessage httpCallback s receiveTime =
      .ok (some { onRequest httpCallback { s with context := p.context, input := p.buf }
        p.context.request with context := p.context.reset }) := by
  simp [onMessage, h, hok, hgot]
  rfl

/-- The requests given to the callback only grow. -/
theorem onMessage_requests {receiveTime : Timestamp} {s' : HttpConn}
    (h : onMessage httpCallback s receiveTime = .ok (some s')) : s.requests <+: s'.requests := by
  obtain ⟨p, -, h⟩ := bind_eq_ok_iff.mp h
  cases p with
  | none => cases h
  | some p =>
    simp only at h
    split_ifs at h <;> obtain rfl := Option.some.inj (Except.ok.inj h)
    · exact List.prefix_append _ _
    · exact List.prefix_rfl
    · exact List.prefix_append _ _
    · exact List.prefix_rfl

theorem deliver_requests :
    ∀ {chunks : List (Bytes × Timestamp)} {s t : HttpConn},
      deliver httpCallback chunks s = .ok (some t) → s.requests <+: t.requests
  | [], s, t, h => by
    obtain rfl := Option.some.inj (Except.ok.inj h)
    exact List.prefix_rfl
  | (chunk, receiveTime) :: chunks, s, t, h => by
    unfold deliver at h
    obtain ⟨p, hp, h⟩ := bind_eq_ok_iff.mp h
    cases p with
    | none => cases h
    | some s' => exact (onMessage_requests hp).trans (deliver_requests h)

theorem deliver_cons {chunk : Bytes} {receiveTime : Timestamp} {s' : HttpConn}
    (chunks : List (Bytes × Timestamp))
    (h : onMessage httpCallback { s with input := s.input.append chunk } receiveTime =
      .ok (some s')) :
    deliver httpCallback ((chunk, receiveTime) :: chunks) s = deliver httpCallback chunks s' := by
  rw [deliver, h, ok_bind]

end HttpConn

end Tmuduo
