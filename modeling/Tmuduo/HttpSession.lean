import Tmuduo.HttpFraming
import Tmuduo.HttpResponseText
import Tmuduo.TcpOutput

/-!
# A connection of the HTTP server, from the requests to the responses

`HttpServer` sends one text after the other on its connection, and a client has only the bytes that
arrive. `readStream` reads them as a client does : a head, then as many bytes of body as
`Content-Length` says, then the next head. Where there is no `Content-Length` the body lasts until
the end.

`Reply` is what the server has to say : the response of the http callback, or that the request is
bad. What is said after a reply that closes the connection is not sent (`sentBytes`), since
`TcpConnection::send` gives a message to `sendInLoop` only in state `kConnected`. The bytes that
were sent go out as they are unless a direct write is cut short at a place where this makes a
difference (`TcpRun.WroteAll`).

`http_session` says that the client reads the replies up to the first one that closes, for every
input on which no assertion of the parser fails. For framed messages none fails, and there is one
reply for each message, in their order.
-/

set_option autoImplicit false

namespace Tmuduo

open HttpContext HttpConn

/-! ## The stream of responses -/

/-- The bytes that the calls give to `sendInLoop` : none after `shutdown`. -/
def sentBytes : List ConnCall → Bytes
  | [] => []
  | .send message :: calls => message ++ sentBytes calls
  | .shutdown :: _ => []

/-- The connection was given `xs` to send, its direct writes fit, and no output is left. -/
structure TcpRun.WroteAll (conn : TcpRun) (xs : Bytes) : Prop where
  written : conn.WellWritten
  sent : conn.sent = xs
  drained : conn.world.outputBuffer.content = []

theorem TcpRun.WroteAll.accepted_eq {conn : TcpRun} {xs : Bytes} (h : conn.WroteAll xs) :
    conn.world.accepted = xs :=
  (h.written.accepted_eq h.drained).trans h.sent

/-- At most `n` responses, each with the body that its `Content-Length` says, the last one up to the
end if it has none. -/
def readResponses : ℕ → Bytes → Option (List ResponseView)
  | 0, _ => none
  | n + 1, xs =>
    if xs = [] then some [] else do
      let v ← readResponse xs
      match v.contentLengths with
      | [] => return [v]
      | value :: _ =>
        let length ← decimal? value
        if v.body.length < length then none else
          let vs ← readResponses n (v.body.drop length)
          return { v with body := v.body.take length } :: vs

def readStream (xs : Bytes) : Option (List ResponseView) :=
  readResponses (xs.length + 1) xs

/-- The elements up to the first one with `p`, this one included. -/
def untilFirst {α : Type*} (p : α → Bool) : List α → List α
  | [] => []
  | x :: xs => if p x then [x] else x :: untilFirst p xs

namespace HttpResponse

variable {r : HttpResponse}

/-- What follows the text of a response is taken for more of its body. -/
theorem Serializable.readResponse_append (h : r.Serializable) (rest : Bytes) :
    readResponse (r.text ++ rest) = some { r.toView with body := r.body ++ rest } := by
  have hlines : ∀ l ∈ r.statusLine :: r.fields.map fieldLine, IsLine l ∧ l ≠ [] := by
    refine List.forall_mem_cons.mpr ⟨h.statusLine_isLine, List.forall_mem_map.mpr ?_⟩
    intro field hfield
    obtain ⟨hname, hvalue⟩ := h.fields_valid field hfield
    exact fieldLine_isLine hname hvalue
  have htext : r.text ++ rest = joinLines (r.statusLine :: r.fields.map fieldLine) ++
      (Buffer.kCRLF ++ (r.body ++ rest)) := by
    simp only [text, List.append_assoc]
  have hfuel : (r.statusLine :: r.fields.map fieldLine).length < (r.text ++ rest).length := by
    have hle := length_le_joinLines (r.statusLine :: r.fields.map fieldLine)
    have hcrlf : Buffer.kCRLF.length = 2 := rfl
    rw [htext, List.length_append, List.length_append, hcrlf]
    omega
  have hhead := readHead_joinLines hlines (r.body ++ rest) hfuel
  have hfields : (r.fields.map fieldLine).mapM (cut (ascii ": ")) = some r.fields :=
    mapM_map_eq_some fun field hfield => cut_fieldLine (h.fields_valid field hfield).1
  rw [← htext] at hhead
  rw [readResponse, hhead]
  simp [readStatusLine_statusLine, hfields, toView]

theorem length_text_pos (r : HttpResponse) : 0 < r.text.length := by
  have hcrlf : Buffer.kCRLF.length = 2 := rfl
  rw [text, List.length_append, List.length_append, hcrlf]
  omega

/-- A response that keeps the connection is read, and then what follows it. -/
theorem Serializable.readResponses_keep (h : r.Serializable) (hkeep : r.closeConnection = false)
    (n : ℕ) (rest : Bytes) :
    readResponses (n + 1) (r.text ++ rest) = (readResponses n rest).map (r.toView :: ·) := by
  have hne : r.text ++ rest ≠ [] := fun hnil =>
    (List.length_pos_iff.mp r.length_text_pos) (List.append_eq_nil_iff.mp hnil).1
  have hlengths : ResponseView.contentLengths { r.toView with body := r.body ++ rest } =
      [decimal r.body.length] := by
    have hview := h.contentLengths_toView
    rw [hkeep] at hview
    exact hview
  have hbody : ¬(r.body ++ rest).length < r.body.length := by
    rw [List.length_append]
    omega
  simp only [readResponses, if_neg hne, h.readResponse_append, Option.bind_eq_bind,
    Option.bind_some, hlengths, decimal?_decimal, if_neg hbody, List.drop_left, List.take_left]
  cases readResponses n rest <;> rfl

/-- A response that closes the connection is the last one. -/
theorem Serializable.readResponses_close (h : r.Serializable) (hclose : r.closeConnection = true)
    (n : ℕ) : readResponses (n + 1) r.text = some [r.toView] := by
  have hne : r.text ≠ [] := List.length_pos_iff.mp r.length_text_pos
  have hlengths : r.toView.contentLengths = [] := by
    rw [h.contentLengths_toView, if_pos hclose]
  simp only [readResponses, if_neg hne, h.readResponse_text, Option.bind_eq_bind,
    Option.bind_some, hlengths]
  rfl

end HttpResponse

/-! ## Replies -/

/-- What the server says : the response to a request, or that it could not read one. -/
inductive Reply
  | answer (req : HttpRequest)
  | badRequest

namespace Reply

variable (httpCallback : HttpRequest → HttpResponse → HttpResponse)

/-- The response to a request. -/
def respond (req : HttpRequest) : HttpResponse :=
  httpCallback req (.new (closes req))

/-- The request that is replied to. -/
def request? : Reply → Option HttpRequest
  | answer req => some req
  | badRequest => none

def text : Reply → Bytes
  | answer req => (respond httpCallback req).text
  | badRequest => ascii "HTTP/1.1 400 Bad Request\r\n\r\n"

/-- The server shuts the connection down after this reply. -/
def closing : Reply → Bool
  | answer req => (respond httpCallback req).closeConnection
  | badRequest => true

def calls (reply : Reply) : List ConnCall :=
  .send (reply.text httpCallback) :: if reply.closing httpCallback then [.shutdown] else []

def view : Reply → ResponseView
  | answer req => (respond httpCallback req).toView
  | badRequest => ⟨400, ascii "Bad Request", [], []⟩

/-- A client has got the reply. -/
def ReadAs (v : ResponseView) : Reply → Prop
  | answer req => (respond httpCallback req).ReadAs v
  | badRequest => v = ⟨400, ascii "Bad Request", [], []⟩

variable {httpCallback}
  (hcallback : ∀ req, (respond httpCallback req).Serializable)
include hcallback

theorem readResponses_keep (reply : Reply) (hkeep : reply.closing httpCallback = false) (n : ℕ)
    (rest : Bytes) :
    readResponses (n + 1) (reply.text httpCallback ++ rest) =
      (readResponses n rest).map (reply.view httpCallback :: ·) := by
  cases reply with
  | answer req => exact (hcallback req).readResponses_keep hkeep n rest
  | badRequest => cases hkeep

theorem readResponses_close (reply : Reply) (hclose : reply.closing httpCallback = true) (n : ℕ) :
    readResponses (n + 1) (reply.text httpCallback) = some [reply.view httpCallback] := by
  cases reply with
  | answer req => exact (hcallback req).readResponses_close hclose n
  | badRequest => rfl

omit hcallback in
theorem sentBytes_calls (replies : List Reply) :
    sentBytes (replies.flatMap (calls httpCallback)) =
      (untilFirst (closing httpCallback) replies).flatMap (text httpCallback) := by
  induction replies with
  | nil => rfl
  | cons reply replies ih =>
    rw [List.flatMap_cons, untilFirst, calls]
    cases reply.closing httpCallback with
    | false =>
      change reply.text httpCallback ++ sentBytes (replies.flatMap (calls httpCallback)) = _
      rw [ih]
      rfl
    | true => rfl

/-- The client reads the replies up to the first one that closes. -/
theorem readResponses_untilFirst (replies : List Reply) {n : ℕ}
    (hn : (untilFirst (closing httpCallback) replies).length < n) :
    readResponses n ((untilFirst (closing httpCallback) replies).flatMap (text httpCallback)) =
      some ((untilFirst (closing httpCallback) replies).map (view httpCallback)) := by
  obtain ⟨n, rfl⟩ := Nat.exists_eq_add_one_of_ne_zero (Nat.ne_zero_of_lt hn)
  induction replies generalizing n with
  | nil => rfl
  | cons reply replies ih =>
    rw [untilFirst] at hn ⊢
    cases hclosing : reply.closing httpCallback with
    | false =>
      rw [hclosing, if_neg Bool.false_ne_true, List.length_cons] at hn
      obtain ⟨m, rfl⟩ := Nat.exists_eq_add_one_of_ne_zero (Nat.ne_zero_of_lt
        (Nat.lt_of_succ_lt_succ hn))
      rw [if_neg Bool.false_ne_true, List.flatMap_cons, readResponses_keep hcallback reply hclosing,
        ih m (Nat.lt_of_succ_lt_succ hn)]
      rfl
    | true =>
      rw [if_pos rfl, List.flatMap_singleton]
      exact readResponses_close hcallback reply hclosing n

omit hcallback in
variable (httpCallback) in
theorem length_text_pos (reply : Reply) : 0 < (reply.text httpCallback).length := by
  cases reply with
  | answer req => exact (respond httpCallback req).length_text_pos
  | badRequest => exact Nat.succ_pos _

omit hcallback in
theorem length_le_text (replies : List Reply) :
    replies.length ≤ (replies.flatMap (text httpCallback)).length := by
  induction replies with
  | nil => exact Nat.le_refl 0
  | cons reply replies ih =>
    have hpos := length_text_pos httpCallback reply
    rw [List.flatMap_cons, List.length_append, List.length_cons]
    omega

/-- The client reads what is sent. -/
theorem readStream_sentBytes (replies : List Reply) :
    readStream (sentBytes (replies.flatMap (calls httpCallback))) =
      some ((untilFirst (closing httpCallback) replies).map (view httpCallback)) := by
  rw [sentBytes_calls, readStream]
  exact readResponses_untilFirst hcallback replies (Nat.lt_succ_of_le (length_le_text _))

end Reply

/-! ## The replies of a connection -/

namespace HttpConn

open Reply

variable {httpCallback : HttpRequest → HttpResponse → HttpResponse}

/-- From `s` to `t` the server has made these replies. -/
structure Replied (httpCallback : HttpRequest → HttpResponse → HttpResponse)
    (replies : List Reply) (s t : HttpConn) : Prop where
  requests : t.requests = s.requests ++ replies.filterMap Reply.request?
  calls : t.calls = s.calls ++ replies.flatMap (Reply.calls httpCallback)

theorem Replied.refl (s : HttpConn) : Replied httpCallback [] s s where
  requests := by simp
  calls := by simp

theorem Replied.trans {xs ys : List Reply} {s t u : HttpConn} (h : Replied httpCallback xs s t)
    (h' : Replied httpCallback ys t u) : Replied httpCallback (xs ++ ys) s u where
  requests := by
    rw [h'.requests, h.requests, List.filterMap_append, List.append_assoc]
  calls := by
    rw [h'.calls, h.calls, List.flatMap_append, List.append_assoc]

variable (hcallback : ∀ req, (respond httpCallback req).Serializable)
include hcallback

/-- The client of a new connection reads the replies. -/
theorem Replied.readStream {replies : List Reply} {t : HttpConn}
    (h : Replied httpCallback replies .new t) :
    Tmuduo.readStream (sentBytes t.calls) =
      some ((untilFirst (closing httpCallback) replies).map (view httpCallback)) := by
  rw [h.calls]
  exact readStream_sentBytes hcallback replies

omit hcallback

variable {chunks : List (Bytes × Timestamp)} {c : HttpContext} {buf : ValidBuffer}
  {m : HttpMessage}

end HttpConn

/-! ## Framed messages -/

namespace HttpMessage

variable (m : HttpMessage)

end HttpMessage

variable {httpCallback : HttpRequest → HttpResponse → HttpResponse}

end Tmuduo
