import Tmuduo.HttpHead
import Tmuduo.Numeral

/-!
# The text of a response

`readResponse` is a reader of responses : it takes the lines up to the first empty one, the code and
the message out of the first line, and cuts each other line at its first colon and blank. What is
after the empty line is the body.

`content_appendToBuffer` says what `appendToBuffer` writes, in terms of lines, and
`readResponse_text` what the reader gets out of it. A response has a `Content-Length` line if and
only if it does not close the connection, and `onRequest` shuts the connection down if and only if
there is none (`response_decodable`).
-/

set_option autoImplicit false

namespace Tmuduo

open HttpContext

/-! ## A reader of responses -/

/-- The bytes before the first `pat`, and those after it. -/
def cut (pat xs : Bytes) : Option (Bytes × Bytes) :=
  (search pat xs).map fun i => (xs.take i, xs.drop (i + pat.length))

/-- The lines up to the first empty one, of at most `n` lines, and the bytes after it. -/
def readHead : ℕ → Bytes → Option (List Bytes × Bytes)
  | 0, _ => none
  | n + 1, xs => do
    let (line, rest) ← firstLine xs
    if line = [] then return ([], rest)
    let (lines, body) ← readHead n rest
    return (line :: lines, body)

/-- The code and the message of a status line. -/
def readStatusLine (line : Bytes) : Option (ℕ × Bytes) := do
  let (version, line) ← cut (ascii " ") line
  let (code, message) ← cut (ascii " ") line
  let code ← decimal? code
  if version = ascii "HTTP/1.1" then return (code, message) else none

/-- What a reader knows about a response. -/
structure ResponseView where
  statusCode : ℕ
  statusMessage : Bytes
  fields : List (Bytes × Bytes)
  body : Bytes
  deriving DecidableEq, Repr

def readResponse (text : Bytes) : Option ResponseView := do
  let (lines, body) ← readHead text.length text
  match lines with
  | [] => none
  | statusLine :: lines =>
    let (code, message) ← readStatusLine statusLine
    let fields ← lines.mapM (cut (ascii ": "))
    return ⟨code, message, fields, body⟩

namespace ResponseView

variable (v : ResponseView)

/-- The fields that are about the connection and not of the response. -/
def isFraming (name : Bytes) : Bool :=
  name = ascii "Content-Length" ∨ name = ascii "Connection"

/-- The headers of the response. -/
def headers : List (Bytes × Bytes) :=
  v.fields.filter fun field => !isFraming field.1

/-- The values of the `Content-Length` lines. -/
def contentLengths : List Bytes :=
  (v.fields.filter fun field => field.1 = ascii "Content-Length").map Prod.snd

end ResponseView

theorem cut_append {p : UInt8} {a : Bytes} (h : p ∉ a) (ps b : Bytes) :
    cut (p :: ps) (a ++ (p :: ps ++ b)) = some (a, b) := by
  rw [cut, search_of_not_mem ps b h, Option.map_some, List.take_left, ← List.drop_drop,
    List.drop_left]
  exact congrArg (fun l => some (a, l)) List.drop_left

theorem isLine_of_not_mem {l : Bytes} (h : '\r'.toUInt8 ∉ l) : IsLine l :=
  fun hcrlf => h (hcrlf.subset List.mem_cons_self)

theorem length_le_joinLines (ls : List Bytes) : ls.length ≤ (joinLines ls).length := by
  induction ls with
  | nil => exact Nat.le_refl 0
  | cons l ls ih =>
    have hcrlf : Buffer.kCRLF.length = 2 := rfl
    rw [joinLines_cons, List.length_append, List.length_append, List.length_cons, hcrlf]
    omega

/-- The reader gets the lines of a head back, and what is after the empty line. -/
theorem readHead_joinLines {ls : List Bytes} (h : ∀ l ∈ ls, IsLine l ∧ l ≠ []) (body : Bytes)
    {n : ℕ} (hn : ls.length < n) :
    readHead n (joinLines ls ++ (Buffer.kCRLF ++ body)) = some (ls, body) := by
  induction ls generalizing n with
  | nil =>
    cases n with
    | zero => exact absurd hn (Nat.lt_irrefl 0)
    | succ n =>
      have hfirst : firstLine (Buffer.kCRLF ++ body) = some ([], body) :=
        firstLine_of_isLine isLine_nil body
      change readHead (n + 1) (Buffer.kCRLF ++ body) = _
      simp [readHead, hfirst]
  | cons l ls ih =>
    obtain ⟨⟨hline, hne⟩, hls⟩ := List.forall_mem_cons.mp h
    cases n with
    | zero => exact absurd hn (Nat.not_lt_zero _)
    | succ n =>
      have hfirst := firstLine_of_isLine hline (joinLines ls ++ (Buffer.kCRLF ++ body))
      have htail := ih hls (Nat.lt_of_succ_lt_succ hn)
      rw [joinLines_cons, List.append_assoc, List.append_assoc]
      simp [readHead, hfirst, hne, htail]

/-! ## Numbers -/

theorem ascii_toString (n : ℕ) : ascii (toString n) = decimal n := by
  rw [ascii, Nat.toString_eq_ofList_toDigits, String.toList_ofList]
  rfl

/-- What `%u` prints reads as the number. -/
theorem decimal?_decimal (n : ℕ) : decimal? (decimal n) = some n := by
  have hne : decimal n ≠ [] := List.length_pos_iff.mp (length_decimal_pos n)
  have hall : (decimal n).all (fun c => 48 ≤ c && c ≤ 57) = true := by
    refine List.all_eq_true.mpr fun c hc => ?_
    simpa using isDigit_of_mem_decimal hc
  have hvalue : (decimal n).foldl (fun n c => 10 * n + (c.toNat - 48)) 0 =
      Nat.ofDigitChars 10 (Nat.toDigits 10 n) 0 := by
    rw [decimal, List.foldl_map, Nat.ofDigitChars_eq_foldl]
    refine List.foldl_ext _ _ _ fun m c hc => ?_
    have hdigit := Nat.isDigit_of_mem_toDigits (by decide) (by decide) hc
    rw [toNat_toUInt8_of_isDigit hdigit]
    rfl
  rw [decimal?, if_pos ⟨hne, hall⟩, hvalue, Nat.ofDigitChars_ten_toDigits]

/-! ## What is written -/

theorem snprintf_of_lt {size : ℕ} {text : Bytes} (h : text.length < size) :
    snprintf size text = text :=
  List.take_of_length_le (Nat.le_sub_one_of_lt h)

namespace HttpResponse

variable (r : HttpResponse)

def statusLine : Bytes :=
  ascii "HTTP/1.1" ++ (ascii " " ++ (decimal r.statusCode.toNat ++ (ascii " " ++ r.statusMessage)))

/-- The line of a header. -/
def fieldLine (field : Bytes × Bytes) : Bytes :=
  field.1 ++ (ascii ": " ++ field.2)

/-- The headers that `appendToBuffer` adds to those of the response. -/
def framing : List (Bytes × Bytes) :=
  if r.closeConnection then [(ascii "Connection", ascii "close")]
  else [(ascii "Content-Length", decimal r.body.length), (ascii "Connection", ascii "keep-Alive")]

/-- All headers, in the order in which they are written. -/
def fields : List (Bytes × Bytes) :=
  r.framing ++ r.headers

/-- The text of the response. -/
def text : Bytes :=
  joinLines (r.statusLine :: r.fields.map fieldLine) ++ (Buffer.kCRLF ++ r.body)

/-- What a reader gets out of the text. -/
def toView : ResponseView :=
  ⟨r.statusCode.toNat, r.statusMessage, r.fields, r.body⟩

theorem length_decimal_statusCode : (decimal r.statusCode.toNat).length ≤ 3 := by
  refine (length_decimal_le_iff (by decide)).mpr ?_
  cases r.statusCode <;> decide

/-- Both texts fit into the 32 bytes of the source. -/
theorem statusLines_eq (h : r.body.length < 10 ^ 13) :
    r.statusLines = joinLines (r.statusLine :: r.framing.map fieldLine) := by
  have hcode := r.length_decimal_statusCode
  have hlength : (decimal r.body.length).length ≤ 13 :=
    (length_decimal_le_iff (by decide)).mpr h
  unfold statusLines statusLine framing
  rw [ascii_toString, ascii_toString, snprintf_of_lt, snprintf_of_lt]
  · split_ifs <;> simp [joinLines, fieldLine, Buffer.kCRLF, ascii]
  · simp [ascii]
    omega
  · simp [ascii]
    omega

theorem content_headers (headers : List (Bytes × Bytes)) (output : ValidBuffer) :
    (headers.foldl (fun output header =>
        output.append (header.1 ++ ascii ": " ++ header.2 ++ ascii "\r\n")) output).content =
      output.content ++ joinLines (headers.map fieldLine) := by
  induction headers generalizing output with
  | nil => simp [joinLines]
  | cons header headers ih =>
    rw [List.foldl_cons, ih, ValidBuffer.content_append]
    simp [fieldLine, Buffer.kCRLF]

/-- `appendToBuffer` appends the text. -/
theorem content_appendToBuffer (h : r.body.length < 10 ^ 13) (output : ValidBuffer) :
    (r.appendToBuffer output).content = output.content ++ r.text := by
  unfold appendToBuffer text fields
  rw [ValidBuffer.content_append, ValidBuffer.content_append, content_headers,
    ValidBuffer.content_append, r.statusLines_eq h]
  simp [joinLines, Buffer.kCRLF]

/-! ## What is read -/

/-- The texts of the response can stand in lines, its headers are not those that `appendToBuffer`
adds, and the length of the body has at most 13 digits. -/
structure Serializable : Prop where
  message_valid : Avoids r.statusMessage "\r\n"
  names_valid : ∀ h ∈ r.headers, Avoids h.1 ":\r\n"
  values_valid : ∀ h ∈ r.headers, Avoids h.2 "\r\n"
  no_framing : ∀ h ∈ r.headers, h.1 ≠ ascii "Content-Length" ∧ h.1 ≠ ascii "Connection"
  body_length : r.body.length < 10 ^ 13

/-- A reader has got the response : the code, the message, exactly the headers and the body. There
is a `Content-Length` line if and only if the response does not close the connection, and it says
the length of the body. -/
structure ReadAs (v : ResponseView) : Prop where
  statusCode : v.statusCode = r.statusCode.toNat
  statusMessage : v.statusMessage = r.statusMessage
  headers : v.headers = r.headers
  body : v.body = r.body
  framed : v.contentLengths ≠ [] ↔ r.closeConnection = false
  length : ∀ value ∈ v.contentLengths, decimal? value = some r.body.length

variable {r}

theorem decimal_avoids (n : ℕ) : Avoids (decimal n) " :\r\n" := by
  intro c hc hbad
  have hdigit := isDigit_of_mem_decimal hc
  have hbad : c ∈ ([32, 58, 13, 10] : Bytes) := hbad
  simp only [List.mem_cons, List.not_mem_nil, or_false] at hbad
  rcases hbad with rfl | rfl | rfl | rfl <;> exact absurd hdigit (by decide)

theorem cut_fieldLine {field : Bytes × Bytes} (h : Avoids field.1 ":\r\n") :
    cut (ascii ": ") (fieldLine field) = some field :=
  cut_append (fun hmem => h _ hmem (by decide)) _ _

theorem fieldLine_isLine {field : Bytes × Bytes} (hname : Avoids field.1 ":\r\n")
    (hvalue : Avoids field.2 "\r\n") : IsLine (fieldLine field) ∧ fieldLine field ≠ [] := by
  have hcr : '\r'.toUInt8 ∉ fieldLine field := by
    rw [fieldLine, List.mem_append, List.mem_append, not_or, not_or]
    exact ⟨fun h => hname _ h (by decide), by decide, fun h => hvalue _ h (by decide)⟩
  refine ⟨isLine_of_not_mem hcr, fun hnil => ?_⟩
  have hcolon := (List.append_eq_nil_iff.mp (List.append_eq_nil_iff.mp hnil).2).1
  cases hcolon

theorem framing_valid : ∀ field ∈ r.framing,
    Avoids field.1 ":\r\n" ∧ Avoids field.2 "\r\n" := by
  have hlength : Avoids (decimal r.body.length) "\r\n" := fun c hc hbad =>
    decimal_avoids _ c hc (List.mem_of_mem_drop (i := 2) hbad)
  intro field hfield
  unfold framing at hfield
  split_ifs at hfield
  · obtain rfl := List.mem_singleton.mp hfield
    exact ⟨by decide, by decide⟩
  · rcases List.mem_pair.mp hfield with rfl | rfl
    · exact ⟨(by decide : Avoids (ascii "Content-Length") ":\r\n"), hlength⟩
    · exact ⟨by decide, by decide⟩

theorem Serializable.fields_valid (h : r.Serializable) :
    ∀ field ∈ r.fields, Avoids field.1 ":\r\n" ∧ Avoids field.2 "\r\n" := by
  intro field hfield
  rcases List.mem_append.mp hfield with hfield | hfield
  · exact framing_valid field hfield
  · exact ⟨h.names_valid field hfield, h.values_valid field hfield⟩

theorem Serializable.statusLine_isLine (h : r.Serializable) :
    IsLine r.statusLine ∧ r.statusLine ≠ [] := by
  have hcr : '\r'.toUInt8 ∉ r.statusLine := by
    simp only [statusLine, List.mem_append, not_or]
    exact ⟨by decide, by decide, fun hmem => decimal_avoids _ _ hmem (by decide), by decide,
      fun hmem => h.message_valid _ hmem (by decide)⟩
  refine ⟨isLine_of_not_mem hcr, fun hnil => ?_⟩
  have hversion := (List.append_eq_nil_iff.mp hnil).1
  cases hversion

theorem readStatusLine_statusLine :
    readStatusLine r.statusLine = some (r.statusCode.toNat, r.statusMessage) := by
  have hversion : cut (ascii " ") r.statusLine = some (ascii "HTTP/1.1",
      decimal r.statusCode.toNat ++ (ascii " " ++ r.statusMessage)) :=
    cut_append (by decide) [] _
  have hcode : cut (ascii " ") (decimal r.statusCode.toNat ++ (ascii " " ++ r.statusMessage)) =
      some (decimal r.statusCode.toNat, r.statusMessage) :=
    cut_append (fun hmem => decimal_avoids _ _ hmem (by decide)) [] _
  simp [readStatusLine, hversion, hcode, decimal?_decimal]

/-- The reader gets out of the text what was written. -/
theorem Serializable.readResponse_text (h : r.Serializable) :
    readResponse r.text = some r.toView := by
  have hlines : ∀ l ∈ r.statusLine :: r.fields.map fieldLine, IsLine l ∧ l ≠ [] := by
    refine List.forall_mem_cons.mpr ⟨h.statusLine_isLine, List.forall_mem_map.mpr ?_⟩
    intro field hfield
    obtain ⟨hname, hvalue⟩ := h.fields_valid field hfield
    exact fieldLine_isLine hname hvalue
  have hfuel : (r.statusLine :: r.fields.map fieldLine).length < r.text.length := by
    have hle := length_le_joinLines (r.statusLine :: r.fields.map fieldLine)
    have hcrlf : Buffer.kCRLF.length = 2 := rfl
    rw [text, List.length_append, List.length_append, hcrlf]
    omega
  have hhead := readHead_joinLines hlines r.body hfuel
  have hfields : (r.fields.map fieldLine).mapM (cut (ascii ": ")) = some r.fields :=
    mapM_map_eq_some fun field hfield => cut_fieldLine (h.fields_valid field hfield).1
  rw [← text] at hhead
  simp [readResponse, hhead, readStatusLine_statusLine, hfields, toView]

theorem Serializable.headers_toView (h : r.Serializable) : r.toView.headers = r.headers := by
  have hframing : r.framing.filter (fun field => !ResponseView.isFraming field.1) = [] := by
    unfold framing
    split_ifs <;> rfl
  have hheaders : r.headers.filter (fun field => !ResponseView.isFraming field.1) = r.headers := by
    refine List.filter_eq_self.mpr fun header hmem => ?_
    obtain ⟨hlength, hconnection⟩ := h.no_framing header hmem
    simp [ResponseView.isFraming, hlength, hconnection]
  rw [ResponseView.headers, toView, fields, List.filter_append, hframing, hheaders]
  rfl

theorem Serializable.contentLengths_toView (h : r.Serializable) :
    r.toView.contentLengths = if r.closeConnection then [] else [decimal r.body.length] := by
  have hheaders : r.headers.filter (fun field => field.1 = ascii "Content-Length") = [] := by
    refine List.filter_eq_nil_iff.mpr fun header hmem => ?_
    simpa using (h.no_framing header hmem).1
  rw [ResponseView.contentLengths, toView, fields, List.filter_append, hheaders, framing]
  split_ifs <;> rfl

theorem Serializable.readAs_toView (h : r.Serializable) : r.ReadAs r.toView where
  statusCode := rfl
  statusMessage := rfl
  headers := h.headers_toView
  body := rfl
  framed := by
    rw [h.contentLengths_toView]
    cases r.closeConnection <;> simp
  length := by
    intro value hvalue
    rw [h.contentLengths_toView] at hvalue
    split_ifs at hvalue
    · cases hvalue
    · obtain rfl := List.mem_singleton.mp hvalue
      exact decimal?_decimal _

end HttpResponse

/-! ## The server -/

namespace HttpConn

/-- The close flag that the http callback gets with a request. -/
def closes (req : HttpRequest) : Bool :=
  req.getHeader (ascii "Connection") = ascii "close" ∨
    (req.version = .kHttp1_0 ∧ req.getHeader (ascii "Connection") ≠ ascii "Keep-Alive")

theorem calls_onRequest (httpCallback : HttpRequest → HttpResponse → HttpResponse) (s : HttpConn)
    (req : HttpRequest) {response : HttpResponse}
    (hresponse : httpCallback req (.new (closes req)) = response) :
    (onRequest httpCallback s req).calls =
      s.calls ++ .send (response.appendToBuffer .new).content ::
        if response.closeConnection then [.shutdown] else [] := by
  subst hresponse
  rfl

end HttpConn

/-- For every response that can be serialized and every buffer : `appendToBuffer` keeps what is in
the buffer and appends a text that reads as the response. And for every request and every callback
that makes such a response : `onRequest` sends such a text, and shuts the connection down after it
if and only if there is no `Content-Length` line in it. -/
theorem response_decodable :
    (∀ (r : HttpResponse) (output : ValidBuffer), r.Serializable →
      ∃ text v, (r.appendToBuffer output).content = output.content ++ text ∧
        readResponse text = some v ∧ r.ReadAs v) ∧
    (∀ (httpCallback : HttpRequest → HttpResponse → HttpResponse) (s : HttpConn)
      (req : HttpRequest), (httpCallback req (.new (HttpConn.closes req))).Serializable →
      ∃ text v, (HttpConn.onRequest httpCallback s req).calls =
          s.calls ++ .send text :: (if v.contentLengths = [] then [.shutdown] else []) ∧
        readResponse text = some v ∧
        (httpCallback req (.new (HttpConn.closes req))).ReadAs v) := by
  refine ⟨fun r output h => ?_, fun httpCallback s req h => ?_⟩
  · exact ⟨r.text, r.toView, r.content_appendToBuffer h.body_length output, h.readResponse_text,
      h.readAs_toView⟩
  · generalize hresponse : httpCallback req (.new (HttpConn.closes req)) = response at h ⊢
    refine ⟨response.text, response.toView, ?_, h.readResponse_text, h.readAs_toView⟩
    rw [HttpConn.calls_onRequest httpCallback s req hresponse,
      response.content_appendToBuffer h.body_length, ValidBuffer.content_new,
      h.contentLengths_toView]
    cases response.closeConnection <;> rfl

/-- A response with a header and a body with CRLF in it. -/
def pageResponse (close : Bool) : HttpResponse where
  headers := [(ascii "Content-Type", ascii "text/plain: x")]
  statusCode := .k200Ok
  statusMessage := ascii "OK then"
  closeConnection := close
  body := ascii "a\r\n\r\nb"

theorem pageResponse_serializable (close : Bool) : (pageResponse close).Serializable := by
  cases close <;> exact ⟨by decide, by decide, by decide, by decide, by decide⟩

/-- The response is written behind other text; and a server whose callback makes it for every
request sends it, and shuts the connection down after a request of HTTP/1.0. -/
theorem response_decodable_page :
    (∃ text v,
      ((pageResponse false).appendToBuffer (ValidBuffer.new.append (ascii "old"))).content =
        ascii "old" ++ text ∧
      readResponse text = some v ∧ v.headers = [(ascii "Content-Type", ascii "text/plain: x")] ∧
      v.body = ascii "a\r\n\r\nb") ∧
    (∃ text v, (HttpConn.onRequest (fun _ response => pageResponse response.closeConnection) .new
          (HttpRequest.new.setVersion .kHttp1_0)).calls = [.send text, .shutdown] ∧
        readResponse text = some v ∧ v.contentLengths = []) := by
  obtain ⟨text, v, hcontent, hread, hv⟩ := response_decodable.1 (pageResponse false)
    (ValidBuffer.new.append (ascii "old")) (pageResponse_serializable false)
  obtain ⟨text', v', hcalls, hread', hv'⟩ := response_decodable.2
    (fun _ response => pageResponse response.closeConnection) .new
    (HttpRequest.new.setVersion .kHttp1_0) (pageResponse_serializable _)
  have hnone : v'.contentLengths = [] := by
    by_contra hsome
    cases hv'.framed.mp hsome
  rw [if_pos hnone] at hcalls
  refine ⟨⟨text, v, ?_, hread, hv.headers, hv.body⟩, text', v', hcalls, hread', hnone⟩
  rw [hcontent, ValidBuffer.content_append, ValidBuffer.content_new, List.nil_append]

end Tmuduo
