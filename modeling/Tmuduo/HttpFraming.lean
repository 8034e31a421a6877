import Tmuduo.HttpServer

/-!
# Framing of requests on a connection

`HttpMessage` is a well-formed HTTP/1.1 request, and `HttpMessage.serialize` its bytes on the
wire. The parser reads the head of a message line by line (`HttpMessage.head_reads`). It does
not look at `Content-Length` : the body it stores is whatever else is in the buffer when the
empty line is read.

So the callback gets the messages that were sent exactly when the chunk that brings the end of
a head brings the rest of its message and nothing more (`Framed`). `http_framing_iff` proves
this for every list of messages and every split of their bytes.
-/

set_option autoImplicit false

namespace Tmuduo

/-! ## Well-formed messages -/

/-- The lower-case letter of an upper-case one. -/
def toLower (c : UInt8) : UInt8 :=
  if 'A'.toUInt8 ≤ c ∧ c ≤ 'Z'.toUInt8 then c + 32 else c

/-- Field names are compared without case. -/
def isField (name : String) (header : Bytes × Bytes) : Bool :=
  header.1.map toLower = ascii name

/-- A field value without the blanks around it. -/
def trimOws (value : Bytes) : Bytes :=
  (value.dropWhile fun c => c == 32 || c == 9).rdropWhile fun c => c == 32 || c == 9

/-- The number that a sequence of decimal digits denotes. -/
def decimal? (digits : Bytes) : Option ℕ :=
  if digits ≠ [] ∧ digits.all fun c => 48 ≤ c && c ≤ 57 then
    some (digits.foldl (fun n c => 10 * n + (c.toNat - 48)) 0)
  else none

/-- None of the bytes is one of `bad`. -/
def Avoids (bs : Bytes) (bad : String) : Prop :=
  ∀ c ∈ bs, c ∉ ascii bad

instance (bs : Bytes) (bad : String) : Decidable (Avoids bs bad) :=
  List.decidableBAll (fun c => c ∉ ascii bad) bs

/-- A well-formed HTTP/1.1 request without a `Connection` header, whose body has the length
that `Content-Length` says. Its method is one of the five of `HttpRequest::Method`, so that
`OPTIONS`, `PATCH` and the like are not meant. A header is its name and the bytes between the
colon and the end of the line. -/
structure HttpMessage where
  method : Method
  path : Bytes
  query : Bytes
  headers : List (Bytes × Bytes)
  body : Bytes
  method_valid : method ≠ .kInvalid
  path_valid : Avoids path " ?\r\n"
  query_valid : query = [] ∨ ∃ q, query = '?'.toUInt8 :: q ∧ Avoids q " \r\n"
  names_valid : ∀ h ∈ headers, h.1 ≠ [] ∧ Avoids h.1 ":\r\n"
  values_valid : ∀ h ∈ headers, Avoids h.2 "\r\n"
  no_connection : ∀ h ∈ headers, isField "connection" h = false
  content_length : ∀ h ∈ headers, isField "content-length" h = true →
    decimal? (trimOws h.2) = some body.length
  no_content_length : (∀ h ∈ headers, isField "content-length" h = false) → body = []

namespace HttpMessage

variable (m : HttpMessage)

def requestLine : Bytes :=
  m.method.toBytes ++ ' '.toUInt8 :: (m.path ++ m.query ++ ' '.toUInt8 :: ascii "HTTP/1.1")

def headerLine (header : Bytes × Bytes) : Bytes :=
  header.1 ++ ':'.toUInt8 :: header.2

def headerLines (headers : List (Bytes × Bytes)) : Bytes :=
  headers.flatMap fun header => headerLine header ++ Buffer.kCRLF

/-- The request line, the header lines and the empty line. -/
def head : Bytes :=
  m.requestLine ++ (Buffer.kCRLF ++ (headerLines m.headers ++ Buffer.kCRLF))

def serialize : Bytes :=
  m.head ++ m.body

/-! ## The head of a message -/

/-- The request as its request line has set it. -/
def started : HttpRequest :=
  { HttpRequest.new with
    method := m.method
    path := m.path
    query := m.query
    version := .kHttp1_1 }

/-- The request as its head has set it. -/
def parsed : HttpRequest :=
  m.headers.foldl (fun r header => r.addHeader (headerLine header) header.1.length) m.started

theorem toBytes_avoids : ∀ method : Method, Avoids method.toBytes " \r" := by
  intro method
  cases method <;> decide

theorem target_not_mem {c : UInt8} (hpath : c ∈ ascii " ?\r\n") (hquery : c ∈ ascii " \r\n")
    (hne : c ≠ '?'.toUInt8) : c ∉ m.path ++ m.query := by
  intro hc
  rcases List.mem_append.mp hc with hc | hc
  · exact m.path_valid c hc hpath
  · rcases m.query_valid with hnil | ⟨q, hq, hvalid⟩
    · rw [hnil] at hc
      cases hc
    · rw [hq] at hc
      rcases List.mem_cons.mp hc with rfl | hc
      · exact hne rfl
      · exact hvalid c hc hquery

theorem processTarget_eq (r : HttpRequest) (hr : r.query = []) :
    HttpContext.processTarget r (m.path ++ m.query) = (r.setPath m.path).setQuery m.query := by
  have hpath : '?'.toUInt8 ∉ m.path := fun h => m.path_valid _ h (by decide)
  unfold HttpContext.processTarget
  rcases m.query_valid with hquery | ⟨q, hquery, -⟩
  · rw [hquery, List.append_nil, List.idxOf_eq_length hpath, ← hr]
    simp [HttpRequest.setPath, HttpRequest.setQuery]
  · rw [hquery, idxOf_append_cons hpath]
    simp

theorem processRequestLine_eq :
    HttpContext.processRequestLine .new m.requestLine = .ok (true, m.started) := by
  have hmethod : ' '.toUInt8 ∉ m.method.toBytes := fun h => toBytes_avoids _ _ h (by decide)
  have htarget : ' '.toUInt8 ∉ m.path ++ m.query :=
    m.target_not_mem (by decide) (by decide) (by decide)
  have hknown := Method.ofBytes_toBytes m.method m.method_valid
  rw [requestLine, HttpContext.processRequestLine_words rfl hmethod htarget
    (by rw [hknown]; exact m.method_valid), processTarget_eq m _ rfl, hknown]
  rfl

theorem not_mem_append_cons {c x : UInt8} {a b : Bytes} (ha : c ∉ a) (hx : c ≠ x) (hb : c ∉ b) :
    c ∉ a ++ x :: b := by
  intro h
  rcases List.mem_append.mp h with h | h
  · exact ha h
  · rcases List.mem_cons.mp h with h | h
    · exact hx h
    · exact hb h

theorem requestLine_not_mem : '\r'.toUInt8 ∉ m.requestLine := by
  have hmethod : '\r'.toUInt8 ∉ m.method.toBytes := fun h => toBytes_avoids _ _ h (by decide)
  have htarget : '\r'.toUInt8 ∉ m.path ++ m.query :=
    m.target_not_mem (by decide) (by decide) (by decide)
  exact not_mem_append_cons hmethod (by decide)
    (not_mem_append_cons htarget (by decide) (by decide))

theorem headerLine_not_mem {header : Bytes × Bytes} (hname : Avoids header.1 ":\r\n")
    (hvalue : Avoids header.2 "\r\n") : '\r'.toUInt8 ∉ headerLine header :=
  not_mem_append_cons (fun h => hname _ h (by decide)) (by decide)
    fun h => hvalue _ h (by decide)

open HttpContext in
theorem headerLine_step {header : Bytes × Bytes} (r : HttpRequest) (rest : Bytes)
    (hname : Avoids header.1 ":\r\n") (hvalue : Avoids header.2 "\r\n") :
    headReader.step ⟨.kExpectHeaders, r⟩ (headerLine header ++ (Buffer.kCRLF ++ rest)) =
      some (⟨.kExpectHeaders, r.addHeader (headerLine header) header.1.length⟩, rest) := by
  have hcolon : ':'.toUInt8 ∉ header.1 := fun h => hname _ h (by decide)
  have hidx : (headerLine header).idxOf ':'.toUInt8 = header.1.length := idxOf_append_cons hcolon _
  have hne : header.1.length ≠ (headerLine header).length := by simp [headerLine]
  simp only [headReader, headStep, firstLine_of_not_mem (headerLine_not_mem hname hvalue)]
  simp [processHeaderLine, hidx, hne]

open HttpContext in
theorem headerLines_reads :
    ∀ {headers : List (Bytes × Bytes)} (r : HttpRequest),
      (∀ h ∈ headers, Avoids h.1 ":\r\n" ∧ Avoids h.2 "\r\n") →
      headReader.Reads (⟨.kExpectHeaders, r⟩, headerLines headers ++ Buffer.kCRLF)
        (⟨.kExpectBody, headers.foldl
          (fun r header => r.addHeader (headerLine header) header.1.length) r⟩, [])
  | [], r, _ => Relation.ReflTransGen.single rfl
  | header :: headers, r, h => by
    obtain ⟨hname, hvalue⟩ := h header List.mem_cons_self
    have hstep := headerLine_step r (headerLines headers ++ Buffer.kCRLF) hname hvalue
    have hlines : headerLines (header :: headers) ++ Buffer.kCRLF =
        headerLine header ++ (Buffer.kCRLF ++ (headerLines headers ++ Buffer.kCRLF)) := by
      simp [headerLines]
    rw [hlines]
    exact Relation.ReflTransGen.head hstep
      (headerLines_reads _ fun h' hmem => h h' (List.mem_cons_of_mem header hmem))

open HttpContext in
/-- The parser reads the head of a message up to its body. -/
theorem head_reads : headReader.Reads (.new, m.head) (⟨.kExpectBody, m.parsed⟩, []) := by
  have hstep : headReader.step .new m.head =
      some (⟨.kExpectHeaders, m.started⟩, headerLines m.headers ++ Buffer.kCRLF) := by
    simp only [headReader, headStep, head, firstLine_of_not_mem m.requestLine_not_mem]
    simp [HttpContext.new, m.processRequestLine_eq]
  exact Relation.ReflTransGen.head hstep (headerLines_reads m.started fun h hmem =>
    ⟨(m.names_valid h hmem).2, m.values_valid h hmem⟩)

open HttpContext in
/-- On a part of a head the reader stops for lack of input. -/
theorem stops_inside_head {xs ys : Bytes} {q : HttpContext × Bytes} (hhead : xs ++ ys = m.head)
    (hys : ys ≠ []) (hstops : headReader.Stops (.new, xs) q) :
    q.1.finish q.2 = (true, q.1, q.2) ∧ q.1.state ≠ .kGotAll := by
  have hq : q.1.Resumable := new_resumable.reads hstops.1
  -- the reader goes on from here to the end of the head
  have hend : headReader.Stops (q.1, q.2 ++ ys) (⟨.kExpectBody, m.parsed⟩, []) := by
    rw [Reader.Reads.stops_append hstops.1, hhead]
    exact ⟨m.head_reads, rfl⟩
  have hgoes : headReader.step q.1 (q.2 ++ ys) ≠ none := by
    intro hnone
    obtain ⟨-, hnil⟩ := Prod.mk.inj (hend.unique (.of_none hnone))
    exact hys (List.append_eq_nil_iff.mp hnil).2
  have hstop : q.1.headStep q.2 = none := hstops.2
  refine ⟨?_, hq.notGotAll⟩
  unfold finish
  cases hline : firstLine q.2 with
  | none =>
    cases hstate : q.1.state with
    | kExpectBody => exact absurd (by simp [headReader, headStep, hstate]) hgoes
    | _ => rfl
  | some p =>
    have hline' := firstLine_append ys hline
    refine absurd ?_ hgoes
    -- a complete line that stops the reader stops it on longer input too
    simp only [headReader, headStep, hline, hline'] at hstop ⊢
    cases hstate : q.1.state with
    | kExpectRequestLine =>
      simp only [hstate] at hstop ⊢
      split at hstop
      · cases hstop
      · rfl
    | kExpectHeaders => simp [hstate] at hstop
    | kExpectBody => simp
    | kGotAll => simp

end HttpMessage

/-! ## What the callback gets -/

namespace HttpConn

open HttpContext

variable (httpCallback : HttpRequest → HttpResponse → HttpResponse) {s : HttpConn}
  {chunks : List (Bytes × Timestamp)} {m : HttpMessage}

/-- A chunk that does not bring the end of the head. -/
theorem onMessage_inside_head (h : Suspended chunks s.context s.input) {chunk ys : Bytes}
    (receiveTime : Timestamp) (hhead : received chunks ++ chunk ++ ys = m.head) (hys : ys ≠ []) :
    ∃ s', onMessage httpCallback { s with input := s.input.append chunk } receiveTime =
        .ok (some s') ∧
      Suspended (chunks ++ [(chunk, receiveTime)]) s'.context s'.input ∧
      s'.requests = s.requests := by
  obtain ⟨q, p, hstops, hcall, hview⟩ := h.resume chunk receiveTime
  obtain ⟨hfinish, hgot⟩ := m.stops_inside_head hhead hys hstops
  rw [hfinish] at hview
  obtain ⟨hok, hcontext, -⟩ := view_eq hview
  have hgot' : p.context.gotAll = false := by
    rw [← hcontext] at hgot
    exact decide_eq_false hgot
  exact ⟨_, onMessage_suspended hcall hok hgot', h.call hcall hok hgot', rfl⟩

/-- The chunk that brings the end of the head : what follows the head is taken for the body. -/
theorem onMessage_end_of_head (h : Suspended chunks s.context s.input) {chunk rest : Bytes}
    (receiveTime : Timestamp) (hhead : received chunks ++ chunk = m.head ++ rest) :
    ∃ s' req, onMessage httpCallback { s with input := s.input.append chunk } receiveTime =
        .ok (some s') ∧
      Suspended [] s'.context s'.input ∧ s'.requests = s.requests ++ [req] ∧
      req.untimed = m.parsed.setBody rest := by
  obtain ⟨q, p, hstops, hcall, hview⟩ := h.resume chunk receiveTime
  have hend :
      headReader.Stops (.new, received chunks ++ chunk) (⟨.kExpectBody, m.parsed⟩, rest) := by
    rw [hhead]
    exact ⟨m.head_reads.append rest, rfl⟩
  obtain rfl := hend.unique hstops
  obtain ⟨hok, hcontext, hcontent⟩ := view_eq hview
  obtain ⟨hstate, hrequest⟩ := HttpContext.mk.inj hcontext
  have hgot : p.context.gotAll = true := decide_eq_true hstate
  exact ⟨_, p.context.request, onMessage_gotAll hcall hok hgot, .start hcontent, rfl, hrequest⟩

theorem received_cons (chunk : Bytes) (receiveTime : Timestamp) :
    received ((chunk, receiveTime) :: chunks) = chunk ++ received chunks :=
  rfl

theorem received_snoc (chunk : Bytes) (receiveTime : Timestamp) :
    received (chunks ++ [(chunk, receiveTime)]) = received chunks ++ chunk := by
  simp [received]

/-- Of the chunks that arrive for a message, the first ones stay inside its head. The next one
makes the server call the callback, with the bytes after the head for a body. -/
theorem deliver_message :
    ∀ {chunks done : List (Bytes × Timestamp)} {s : HttpConn} {tail : Bytes},
      Suspended done s.context s.input → (received done).length < m.head.length →
      received done ++ received chunks = m.head ++ tail →
      ∃ first last rest body s' req, chunks = first ++ last :: rest ∧
        (received (done ++ first)).length < m.head.length ∧
        received (done ++ first) ++ last.1 = m.head ++ body ∧
        deliver httpCallback chunks s = deliver httpCallback rest s' ∧
        Suspended [] s'.context s'.input ∧ s'.requests = s.requests ++ [req] ∧
        req.untimed = m.parsed.setBody body
  | [], done, s, tail, _, hlen, hall => by
    have hle := congrArg List.length hall
    simp [received] at hle hlen
    omega
  | (chunk, receiveTime) :: chunks, done, s, tail, hs, hlen, hall => by
    rw [received_cons, ← List.append_assoc] at hall
    have hcases : (∃ ys, ys ≠ [] ∧ received done ++ chunk ++ ys = m.head) ∨
        ∃ body, received done ++ chunk = m.head ++ body := by
      rcases List.append_eq_append_iff.mp hall with ⟨ys, hys, -⟩ | ⟨body, hbody, -⟩
      · by_cases hnil : ys = []
        · exact Or.inr ⟨[], by rw [hys, hnil, List.append_nil, List.append_nil]⟩
        · exact Or.inl ⟨ys, hnil, hys.symm⟩
      · exact Or.inr ⟨body, hbody⟩
    rcases hcases with ⟨ys, hys, hhead⟩ | ⟨body, hbody⟩
    · obtain ⟨s', hmessage, hs', hrequests⟩ :=
        onMessage_inside_head httpCallback hs receiveTime hhead hys
      have hlen' : (received (done ++ [(chunk, receiveTime)])).length < m.head.length := by
        have hpos := List.length_pos_iff.mpr hys
        rw [received_snoc, ← hhead]
        simp only [List.length_append]
        omega
      rw [← received_snoc chunk receiveTime] at hall
      obtain ⟨first, last, rest, body, t, req, rfl, hfirst, hbody, hdeliver, ht, hreq, hparsed⟩ :=
        deliver_message hs' hlen' hall
      rw [List.append_assoc, List.singleton_append] at hfirst hbody
      refine ⟨(chunk, receiveTime) :: first, last, rest, body, t, req, rfl, hfirst, hbody, ?_, ht,
        ?_, hparsed⟩
      · rw [deliver_cons _ hmessage, hdeliver]
      · rw [hreq, hrequests]
    · obtain ⟨s', req, hmessage, hs', hreq, hparsed⟩ :=
        onMessage_end_of_head httpCallback hs receiveTime hbody
      rw [← List.append_nil done] at hlen
      refine ⟨[], (chunk, receiveTime), chunks, body, s', req, rfl, hlen, ?_, ?_, hs', hreq,
        hparsed⟩
      · rw [List.append_nil, hbody]
      · rw [deliver_cons _ hmessage]

end HttpConn

/-- What a callback can tell about a request. -/
structure RequestView where
  method : Method
  path : Bytes
  query : Bytes
  version : Version
  body : Bytes
  deriving DecidableEq, Repr

def HttpRequest.toView (r : HttpRequest) : RequestView :=
  ⟨r.method, r.path, r.query, r.version, r.body⟩

def HttpMessage.toView (m : HttpMessage) : RequestView :=
  ⟨m.method, m.path, m.query, .kHttp1_1, m.body⟩

/-- The bytes of the messages on the wire. -/
def wire (ms : List HttpMessage) : Bytes :=
  ms.flatMap HttpMessage.serialize

/-- Every message ends where a chunk ends, and the chunk that brings the last byte of its head
is the one that brings its last byte. -/
def Framed : List HttpMessage → List Bytes → Prop
  | [], chunks => chunks = []
  | m :: ms, chunks => ∃ first last rest, chunks = first ++ last :: rest ∧
      first.flatten.length < m.head.length ∧ first.flatten ++ last = m.serialize ∧ Framed ms rest

theorem toView_addHeaders (headers : List (Bytes × Bytes)) (r : HttpRequest) :
    (headers.foldl (fun r header => r.addHeader (HttpMessage.headerLine header) header.1.length)
      r).toView = r.toView := by
  induction headers generalizing r with
  | nil => rfl
  | cons header headers ih => exact ih _

theorem HttpMessage.toView_parsed (m : HttpMessage) {r : HttpRequest} {body : Bytes}
    (h : r.untimed = m.parsed.setBody body) :
    r.toView = ⟨m.method, m.path, m.query, .kHttp1_1, body⟩ := by
  have hparsed : m.parsed.toView = m.started.toView := toView_addHeaders _ _
  calc r.toView = (m.parsed.setBody body).toView := by rw [← h]; rfl
    _ = { m.parsed.toView with body := body } := rfl
    _ = { m.started.toView with body := body } := by rw [hparsed]

/-- The chunk that brings the last byte of a head is determined. -/
theorem first_chunks_unique {n : ℕ} {a a' b b' : List Bytes} {x x' : Bytes}
    (heq : a ++ x :: b = a' ++ x' :: b') (ha : a.flatten.length < n)
    (hx : n ≤ (a.flatten ++ x).length) (ha' : a'.flatten.length < n)
    (hx' : n ≤ (a'.flatten ++ x').length) : a = a' ∧ x = x' ∧ b = b' := by
  rcases List.append_eq_append_iff.mp heq with ⟨c, hc, hrest⟩ | ⟨c, hc, hrest⟩
  · cases c with
    | nil =>
      obtain ⟨hxx, hbb⟩ := List.cons.inj hrest
      exact ⟨by rw [hc, List.append_nil], hxx, hbb⟩
    | cons y c =>
      obtain ⟨rfl, -⟩ := List.cons.inj hrest
      rw [hc] at ha'
      simp at ha' hx
      omega
  · cases c with
    | nil =>
      obtain ⟨hxx, hbb⟩ := List.cons.inj hrest
      exact ⟨by rw [hc, List.append_nil], hxx.symm, hbb.symm⟩
    | cons y c =>
      obtain ⟨rfl, -⟩ := List.cons.inj hrest
      rw [hc] at ha
      simp at ha hx'
      omega

theorem HttpMessage.head_pos (m : HttpMessage) : 0 < m.head.length := by
  simp only [HttpMessage.head, HttpMessage.requestLine, List.length_append, List.length_cons]
  omega

/-- The first message is framed by the chunks that reach the end of its head. -/
theorem framed_cons_iff {m : HttpMessage} {first : List Bytes} {last body : Bytes}
    (hfirst : first.flatten.length < m.head.length)
    (hbody : first.flatten ++ last = m.head ++ body) (ms : List HttpMessage) (rest : List Bytes) :
    Framed (m :: ms) (first ++ last :: rest) ↔ body = m.body ∧ Framed ms rest := by
  have hhead : m.head.length ≤ (first.flatten ++ last).length := by
    rw [hbody, List.length_append]
    exact Nat.le_add_right _ _
  constructor
  · rintro ⟨first', last', rest', heq, hfirst', hserialize, hrest⟩
    have hhead' : m.head.length ≤ (first'.flatten ++ last').length := by
      rw [hserialize, HttpMessage.serialize, List.length_append]
      exact Nat.le_add_right _ _
    obtain ⟨rfl, rfl, rfl⟩ := first_chunks_unique heq hfirst hhead hfirst' hhead'
    exact ⟨List.append_cancel_left (hbody.symm.trans hserialize), hrest⟩
  · rintro ⟨rfl, hrest⟩
    exact ⟨first, last, rest, rfl, hfirst, hbody, hrest⟩

variable (httpCallback : HttpRequest → HttpResponse → HttpResponse)

open HttpContext HttpConn

theorem deliver_messages :
    ∀ (ms : List HttpMessage) {chunks : List (Bytes × Timestamp)} {s : HttpConn},
      Suspended [] s.context s.input → (∀ c ∈ chunks, c.1 ≠ []) → received chunks = wire ms →
      ((∃ t, deliver httpCallback chunks s = .ok (some t) ∧
        t.requests.map HttpRequest.toView =
          s.requests.map HttpRequest.toView ++ ms.map HttpMessage.toView) ↔
        Framed ms (chunks.map Prod.fst))
  | [], chunks, s, _, hne, hwire => by
    cases chunks with
    | nil => simp [deliver, Framed]
    | cons c chunks =>
      rw [received_cons] at hwire
      exact absurd (List.append_eq_nil_iff.mp hwire).1 (hne c List.mem_cons_self)
  | m :: ms, chunks, s, hs, hne, hwire => by
    have hall : received [] ++ received chunks = m.head ++ (m.body ++ wire ms) := by
      rw [hwire]
      simp [received, wire, HttpMessage.serialize]
    obtain ⟨first, last, rest, body, s', req, rfl, hfirst, hbody, hdeliver, hs', hreq, hparsed⟩ :=
      deliver_message httpCallback hs m.head_pos hall
    rw [List.nil_append] at hfirst hbody
    have hview := m.toView_parsed hparsed
    have hframed := framed_cons_iff hfirst hbody ms (rest.map Prod.fst)
    rw [hdeliver, List.map_append, List.map_cons, List.map_cons, hframed]
    by_cases hsent : body = m.body
    · have hrest : received rest = wire ms := by
        have hsplit : received [] ++ received (first ++ last :: rest) =
            received first ++ last.1 ++ received rest := by
          simp [received]
        rw [hsplit, hbody, hsent, List.append_assoc] at hall
        exact List.append_cancel_left (List.append_cancel_left hall)
      have hviews : s'.requests.map HttpRequest.toView =
          s.requests.map HttpRequest.toView ++ [m.toView] := by
        rw [hreq, List.map_append, List.map_singleton, hview, hsent]
        rfl
      have ih := deliver_messages ms hs' (fun c hc => hne c (by simp [hc])) hrest
      rw [hviews, List.append_assoc, List.singleton_append] at ih
      rw [ih]
      exact ⟨fun h => ⟨hsent, h⟩, fun h => h.2⟩
    · refine ⟨?_, fun h => absurd h.1 hsent⟩
      rintro ⟨t, ht, hviews⟩
      have hpre := (deliver_requests ht).map HttpRequest.toView
      rw [hviews, hreq, List.map_append, List.map_singleton, List.prefix_append_right_inj] at hpre
      obtain ⟨hfirst', -⟩ := List.cons_prefix_cons.mp hpre
      rw [hview] at hfirst'
      exact absurd (congrArg RequestView.body hfirst') hsent

/-- For every list of messages and every split of their bytes into chunks : the callback is
invoked once for each message, with its method, path, query, version and body, if and only if
the messages are framed by the chunks. -/
theorem http_framing_iff (ms : List HttpMessage) (chunks : List (Bytes × Timestamp))
    (hne : ∀ c ∈ chunks, c.1 ≠ []) (hwire : received chunks = wire ms) :
    (∃ t, deliver httpCallback chunks .new = .ok (some t) ∧
      t.requests.map HttpRequest.toView = ms.map HttpMessage.toView) ↔
      Framed ms (chunks.map Prod.fst) := by
  simpa [HttpConn.new] using
    deliver_messages httpCallback ms (s := .new) (.start ValidBuffer.content_new) hne hwire

/-- A message with a query and a body. -/
def postMessage : HttpMessage where
  method := .kPost
  path := ascii "/a"
  query := ascii "?b"
  headers := [(ascii "Content-Length", ascii " 2")]
  body := ascii "hi"
  method_valid := by decide
  path_valid := by decide
  query_valid := Or.inr ⟨ascii "b", rfl, by decide⟩
  names_valid := by decide
  values_valid := by decide
  no_connection := by decide
  content_length := by decide
  no_content_length := by decide

/-- Two messages, with a chunk that ends inside a CRLF of the first one. -/
theorem http_framing_iff_two_messages :
    ∃ t, deliver (fun _ response => response)
        [(ascii "POST /a?b HTTP/1.1\r\nContent-Length: 2\r", 1), (ascii "\n\r\nhi", 2),
          (postMessage.serialize, 3)] .new = .ok (some t) ∧
      t.requests.map HttpRequest.toView = [postMessage.toView, postMessage.toView] :=
  (http_framing_iff _ [postMessage, postMessage] _ (by decide) rfl).mpr
    ⟨[ascii "POST /a?b HTTP/1.1\r\nContent-Length: 2\r"], ascii "\n\r\nhi", [postMessage.serialize],
      rfl, by decide, rfl, [], postMessage.serialize, [], rfl, by decide, rfl, rfl⟩

set_option maxRecDepth 20000 in
/-- Two messages in one chunk : the callback is invoked once, and the second message is in the
body of the first. -/
theorem http_framing_pipelined :
    received [(wire [postMessage, postMessage], 1)] = wire [postMessage, postMessage] ∧
    ∃ t, deliver (fun _ response => response) [(wire [postMessage, postMessage], 1)] .new =
        .ok (some t) ∧
      t.requests.map HttpRequest.toView =
        [⟨.kPost, ascii "/a", ascii "?b", .kHttp1_1, ascii "hi" ++ postMessage.serialize⟩] ∧
      t.requests.map HttpRequest.toView ≠ [postMessage.toView, postMessage.toView] :=
  ⟨rfl, _, rfl, rfl, by decide⟩

end Tmuduo
