import Tmuduo.HttpRequest
import Tmuduo.Incremental

/-!
# The HTTP parser

`HttpContext` is `tmuduo::net::HttpContext`. `HttpContext.iterate` is one pass of the loop of
`parseRequest`, and `parseLoop` is the loop for as many passes as it is given. In state
`kGotAll` the loop does not end; in the other states `readableBytes + 1` passes are enough.

The passes that read a line and go on are a `Reader` (`headReader`) on the context without
times and the unread bytes. The passes that end a call are `HttpContext.finish`.
`parseRequest_spec` says that a call is the reader followed by `finish`, and that no assertion
fails. Resuming is then resuming the reader (`parseRequest_resume`).
-/

set_option autoImplicit false

namespace Tmuduo

/-- `HttpContext::HttpRequestParseState`. -/
inductive HttpRequestParseState
  | kExpectRequestLine
  | kExpectHeaders
  | kExpectBody
  | kGotAll
  deriving DecidableEq, Repr

/-- `tmuduo::net::HttpContext`. -/
structure HttpContext where
  state : HttpRequestParseState
  request : HttpRequest
  deriving DecidableEq

/-- The variables of `parseRequest` after a pass of its loop. -/
structure ParsePass where
  ok : Bool
  hasMore : Bool
  context : HttpContext
  buf : ValidBuffer

/-- What `parseRequest` returns, and leaves behind. -/
structure Parsed where
  ok : Bool
  context : HttpContext
  buf : ValidBuffer

namespace HttpContext

/-- `HttpContext::HttpContext`. -/
def new : HttpContext := ⟨.kExpectRequestLine, .new⟩

variable (c : HttpContext)

def gotAll : Bool := c.state = .kGotAll

def reset (c : HttpContext) : HttpContext :=
  { c with state := .kExpectRequestLine, request := .new }

/-- The version that ends a request line, of the bytes after the second space. -/
def processVersion (r : HttpRequest) (start : Bytes) : Bool × HttpRequest :=
  if start.length = 8 ∧ start.dropLast = ascii "HTTP/1." then
    if start.getLast? = some '1'.toUInt8 then (true, r.setVersion .kHttp1_1)
    else if start.getLast? = some '0'.toUInt8 then (true, r.setVersion .kHttp1_0)
    else (false, r)
  else (false, r)

/-- The path and the query, of the bytes between the two spaces. -/
def processTarget (r : HttpRequest) (target : Bytes) : HttpRequest :=
  let question := target.idxOf '?'.toUInt8
  if question ≠ target.length then
    (r.setPath (target.take question)).setQuery (target.drop question)
  else r.setPath target

/-- `processRequestLine`. A pointer into the line is the part of the line from it on. -/
def processRequestLine (r : HttpRequest) (line : Bytes) :
    Except HttpAssert (Bool × HttpRequest) := do
  let space := line.idxOf ' '.toUInt8
  if space ≠ line.length then
    let (known, r) ← r.setMethod (line.take space)
    if known then
      let start := line.drop (space + 1)
      let space := start.idxOf ' '.toUInt8
      if space ≠ start.length then
        return processVersion (processTarget r (start.take space)) (start.drop (space + 1))
      else return (false, r)
    else return (false, r)
  else return (false, r)

/-- One line of the header section : a header, or the end of the section. -/
def processHeaderLine (line : Bytes) : HttpContext :=
  let colon := line.idxOf ':'.toUInt8
  if colon ≠ line.length then { c with request := c.request.addHeader line colon }
  else { c with state := .kExpectBody }

/-- One pass of the loop of `parseRequest`. -/
def iterate (buf : ValidBuffer) (receiveTime : Timestamp) (ok : Bool) :
    Except HttpAssert ParsePass :=
  match c.state with
  | .kExpectRequestLine =>
    match buf.findCRLF with
    | some crlf => do
      let (ok, request) ← processRequestLine c.request (buf.content.take crlf)
      if ok then
        let buf' ← (buf.retrieveUntil (crlf + 2)).mapError HttpAssert.buffer
        return ⟨ok, true, ⟨.kExpectHeaders, request.setReceiveTime receiveTime⟩, buf'⟩
      else return ⟨ok, false, { c with request := request }, buf⟩
    | none => return ⟨ok, false, c, buf⟩
  | .kExpectHeaders =>
    match buf.findCRLF with
    | some crlf => do
      let buf' ← (buf.retrieveUntil (crlf + 2)).mapError HttpAssert.buffer
      return ⟨ok, true, c.processHeaderLine (buf.content.take crlf), buf'⟩
    | none => return ⟨ok, false, c, buf⟩
  | .kExpectBody =>
    return ⟨ok, false, ⟨.kGotAll, c.request.setBody buf.content⟩, buf.retrieveAll⟩
  | .kGotAll => return ⟨ok, true, c, buf⟩

/-- At most `n` passes of the loop. `none` : it is still running. -/
def parseLoop (receiveTime : Timestamp) :
    ℕ → HttpContext → ValidBuffer → Bool → Except HttpAssert (Option Parsed)
  | 0, _, _, _ => return none
  | n + 1, c, buf, ok => do
    let p ← c.iterate buf receiveTime ok
    if p.hasMore then parseLoop receiveTime n p.context p.buf p.ok
    else return some ⟨p.ok, p.context, p.buf⟩

/-- `parseRequest`. `none` : the call does not return. -/
def parseRequest (buf : ValidBuffer) (receiveTime : Timestamp) :
    Except HttpAssert (Option Parsed) :=
  parseLoop receiveTime (buf.readableBytes + 1) c buf true

/-- The context without the time of its request. -/
def untimed : HttpContext := { c with request := c.request.untimed }

/-- A line of three words, the first of them a method. -/
theorem processRequestLine_words {r : HttpRequest} {m target version : Bytes}
    (hr : r.method = .kInvalid) (hm : ' '.toUInt8 ∉ m) (htarget : ' '.toUInt8 ∉ target)
    (hknown : Method.ofBytes m ≠ .kInvalid) :
    processRequestLine r (m ++ ' '.toUInt8 :: (target ++ ' '.toUInt8 :: version)) =
      .ok (processVersion (processTarget { r with method := Method.ofBytes m } target)
        version) := by
  have hstart : (m ++ ' '.toUInt8 :: (target ++ ' '.toUInt8 :: version)).drop (m.length + 1) =
      target ++ ' '.toUInt8 :: version := by
    rw [← List.drop_drop, List.drop_left, List.drop_one, List.tail_cons]
  have hversion : (target ++ ' '.toUInt8 :: version).drop (target.length + 1) = version := by
    rw [← List.drop_drop, List.drop_left, List.drop_one, List.tail_cons]
  unfold processRequestLine
  simp only [idxOf_append_cons hm, List.take_left, HttpRequest.setMethod_ok hr, ok_bind, hstart,
    idxOf_append_cons htarget, hversion]
  simp [hknown]

/-! ## The reader of the head -/

/-- The first line of the input, and what follows its CRLF. -/
def firstLine (xs : Bytes) : Option (Bytes × Bytes) :=
  (search Buffer.kCRLF xs).map fun crlf => (xs.take crlf, xs.drop (crlf + 2))

/-- A pass that reads a line and goes on. -/
def headStep (xs : Bytes) : Option (HttpContext × Bytes) :=
  match c.state, firstLine xs with
  | .kExpectRequestLine, some (line, rest) =>
    match processRequestLine c.request line with
    | .ok (true, request) => some (⟨.kExpectHeaders, request⟩, rest)
    | _ => none
  | .kExpectHeaders, some (line, rest) => some (c.processHeaderLine line, rest)
  | _, _ => none

/-- The pass that ends a call : the value returned, the context and the unread bytes. -/
def finish (xs : Bytes) : Bool × HttpContext × Bytes :=
  match c.state, firstLine xs with
  | .kExpectRequestLine, some (line, _) =>
    match processRequestLine c.request line with
    | .ok (ok, request) => (ok, { c with request := request }, xs)
    | .error _ => (false, c, xs)
  | .kExpectBody, _ => (true, ⟨.kGotAll, c.request.setBody xs⟩, [])
  | _, _ => (true, c, xs)

theorem firstLine_append {xs line rest : Bytes} (ys : Bytes)
    (h : firstLine xs = some (line, rest)) : firstLine (xs ++ ys) = some (line, rest ++ ys) := by
  obtain ⟨crlf, hcrlf, heq⟩ := Option.map_eq_some_iff.mp h
  obtain ⟨rfl, rfl⟩ := Prod.mk.inj heq
  have hle : crlf + 2 ≤ xs.length := search_le hcrlf (by decide)
  rw [firstLine, search_append ys hcrlf, Option.map_some,
    List.take_append_of_le_length (by omega), List.drop_append_of_le_length hle]

theorem firstLine_length {xs line rest : Bytes} (h : firstLine xs = some (line, rest)) :
    rest.length < xs.length := by
  obtain ⟨crlf, hcrlf, heq⟩ := Option.map_eq_some_iff.mp h
  obtain ⟨rfl, rfl⟩ := Prod.mk.inj heq
  have hle : crlf + 2 ≤ xs.length := search_le hcrlf (by decide)
  rw [List.length_drop]
  omega

/-- A line that ends at the first CRLF is the first line. -/
theorem firstLine_of_search {line rest : Bytes}
    (h : search Buffer.kCRLF (line ++ (Buffer.kCRLF ++ rest)) = some line.length) :
    firstLine (line ++ (Buffer.kCRLF ++ rest)) = some (line, rest) := by
  have hdrop : (line ++ (Buffer.kCRLF ++ rest)).drop (line.length + 2) = rest := by
    rw [← List.drop_drop, List.drop_left]
    exact @List.drop_left _ Buffer.kCRLF rest
  rw [firstLine, h, Option.map_some, List.take_left, hdrop]

/-- A line without CR is the first line. -/
theorem firstLine_of_not_mem {line : Bytes} (h : '\r'.toUInt8 ∉ line) (rest : Bytes) :
    firstLine (line ++ (Buffer.kCRLF ++ rest)) = some (line, rest) :=
  firstLine_of_search (search_of_not_mem ['\n'.toUInt8] rest h)

theorem headStep_firstLine {c d : HttpContext} {xs rest : Bytes}
    (h : c.headStep xs = some (d, rest)) : ∃ line, firstLine xs = some (line, rest) := by
  unfold headStep at h
  split at h
  · next line rest' _ hline =>
    split at h
    · obtain ⟨-, rfl⟩ := Prod.mk.inj (Option.some.inj h)
      exact ⟨line, hline⟩
    · cases h
  · next line rest' _ hline =>
    obtain ⟨-, rfl⟩ := Prod.mk.inj (Option.some.inj h)
    exact ⟨line, hline⟩
  · cases h

/-- The passes of `parseRequest` that go on, as a reader. -/
def headReader : Reader HttpContext UInt8 where
  step c xs := c.headStep xs
  stable := by
    intro c d xs rest ys h
    obtain ⟨line, hline⟩ := headStep_firstLine h
    have hline' := firstLine_append ys hline
    unfold headStep at h ⊢
    rw [hline] at h
    rw [hline']
    cases hstate : c.state with
    | kExpectRequestLine =>
      simp only [hstate] at h ⊢
      split at h
      · next request hok =>
        obtain ⟨rfl, -⟩ := Prod.mk.inj (Option.some.inj h)
        rfl
      · cases h
    | kExpectHeaders =>
      simp only [hstate] at h ⊢
      obtain ⟨rfl, -⟩ := Prod.mk.inj (Option.some.inj h)
      rfl
    | kExpectBody => simp [hstate] at h
    | kGotAll => simp [hstate] at h
  shrinks := by
    intro c d xs rest h
    obtain ⟨line, hline⟩ := headStep_firstLine h
    exact firstLine_length hline

/-! ## A call is the reader and `finish` -/

/-- What a call may start from : the method is not set before the request line is read, and the
request before has been taken. -/
structure Resumable : Prop where
  method : c.state = .kExpectRequestLine → c.request.method = .kInvalid
  notGotAll : c.state ≠ .kGotAll

theorem new_resumable : new.Resumable :=
  ⟨fun _ => rfl, by decide⟩

theorem resumable_untimed : c.untimed.Resumable ↔ c.Resumable :=
  ⟨fun h => ⟨h.method, h.notGotAll⟩, fun h => ⟨h.method, h.notGotAll⟩⟩

theorem headStep_resumable {c d : HttpContext} {xs rest : Bytes}
    (h : c.headStep xs = some (d, rest)) : d.Resumable := by
  unfold headStep at h
  split at h
  · split at h
    · obtain ⟨rfl, -⟩ := Prod.mk.inj (Option.some.inj h)
      exact ⟨by simp, by simp⟩
    · cases h
  · next line rest' hstate _ =>
    obtain ⟨rfl, -⟩ := Prod.mk.inj (Option.some.inj h)
    unfold processHeaderLine
    simp only
    split_ifs <;> exact ⟨by simp [hstate], by simp [hstate]⟩
  · cases h

theorem Resumable.reads {c d : HttpContext} {xs rest : Bytes} (hc : c.Resumable)
    (h : headReader.Reads (c, xs) (d, rest)) : d.Resumable := by
  rcases Relation.ReflTransGen.cases_tail h with heq | ⟨p, -, hstep⟩
  · rwa [(Prod.mk.inj heq).1]
  · exact headStep_resumable hstep

theorem processTarget_untimed (r : HttpRequest) (target : Bytes) :
    processTarget r.untimed target = (processTarget r target).untimed := by
  unfold processTarget
  simp only
  split_ifs <;> rfl

theorem processVersion_untimed (r : HttpRequest) (start : Bytes) :
    processVersion r.untimed start =
      ((processVersion r start).1, (processVersion r start).2.untimed) := by
  unfold processVersion
  split_ifs <;> rfl

theorem processRequestLine_untimed (r : HttpRequest) (line : Bytes) :
    processRequestLine r.untimed line =
      (processRequestLine r line).map fun p => (p.1, p.2.untimed) := by
  by_cases hm : r.method = .kInvalid
  · have hm' : r.untimed.method = .kInvalid := hm
    simp only [processRequestLine, HttpRequest.setMethod_ok hm, HttpRequest.setMethod_ok hm',
      ok_bind]
    split_ifs
    · refine congrArg Except.ok (Eq.trans ?_ (processVersion_untimed _ _))
      rw [← processTarget_untimed]
      rfl
    · rfl
    · rfl
    · rfl
  · have hm' : r.untimed.method ≠ .kInvalid := hm
    simp only [processRequestLine, HttpRequest.setMethod]
    rw [check_of_not _ hm, check_of_not _ hm']
    split_ifs <;> rfl

theorem processRequestLine_ok {r : HttpRequest} (h : r.method = .kInvalid) (line : Bytes) :
    ∃ ok r', processRequestLine r line = .ok (ok, r') := by
  simp only [processRequestLine, HttpRequest.setMethod_ok h, ok_bind]
  split_ifs <;> exact ⟨_, _, rfl⟩

/-- The request line of a resumable context, read with and without the time. -/
theorem Resumable.processRequestLine {c : HttpContext} (hc : c.Resumable)
    (hstate : c.state = .kExpectRequestLine) (line : Bytes) :
    ∃ ok r', HttpContext.processRequestLine c.request line = .ok (ok, r') ∧
      HttpContext.processRequestLine c.untimed.request line = .ok (ok, r'.untimed) := by
  obtain ⟨ok, r', hr'⟩ := processRequestLine_ok (hc.method hstate) line
  refine ⟨ok, r', hr', ?_⟩
  rw [show c.untimed.request = c.request.untimed from rfl, processRequestLine_untimed, hr']
  rfl

theorem findCRLF_of_firstLine {buf : ValidBuffer} {line rest : Bytes}
    (h : firstLine buf.content = some (line, rest)) :
    ∃ crlf buf', buf.findCRLF = some crlf ∧ buf.content.take crlf = line ∧
      buf.retrieveUntil (crlf + 2) = .ok buf' ∧ buf'.content = rest := by
  obtain ⟨crlf, hcrlf, heq⟩ := Option.map_eq_some_iff.mp h
  obtain ⟨hline, hrest⟩ := Prod.mk.inj heq
  refine ⟨crlf, buf.retrieve (crlf + 2), hcrlf, hline, ?_, ?_⟩
  · exact buf.retrieveUntil_ok (search_le hcrlf (by decide))
  · rw [ValidBuffer.content_retrieve, hrest]

theorem findCRLF_of_firstLine_none {buf : ValidBuffer} (h : firstLine buf.content = none) :
    buf.findCRLF = none :=
  Option.map_eq_none_iff.mp h

variable {c}

/-- A pass does to the context and the unread bytes what the reader does. -/
theorem Resumable.iterate_step {d : HttpContext} {buf : ValidBuffer} {rest : Bytes}
    (hc : c.Resumable) (h : c.untimed.headStep buf.content = some (d, rest))
    (receiveTime : Timestamp) :
    ∃ c' buf', c.iterate buf receiveTime true = .ok ⟨true, true, c', buf'⟩ ∧
      c'.untimed = d ∧ buf'.content = rest := by
  obtain ⟨line, hline⟩ := headStep_firstLine h
  obtain ⟨crlf, buf', hcrlf, htake, hbuf', hrest⟩ := findCRLF_of_firstLine hline
  unfold headStep at h
  unfold iterate
  rw [hline] at h
  rw [hcrlf]
  cases hstate : c.state with
  | kExpectRequestLine =>
    have hstate' : c.untimed.state = .kExpectRequestLine := hstate
    obtain ⟨ok, r', hr', hline'⟩ := hc.processRequestLine hstate line
    simp only [hstate', hline'] at h
    split at h
    · next request hok =>
      obtain ⟨rfl, hreq⟩ := Prod.mk.inj (Except.ok.inj hok)
      obtain ⟨rfl, -⟩ := Prod.mk.inj (Option.some.inj h)
      refine ⟨⟨.kExpectHeaders, r'.setReceiveTime receiveTime⟩, buf', ?_, ?_, hrest⟩
      · simp [htake, hr', hbuf', Except.mapError]
      · rw [← hreq]
        rfl
    · cases h
  | kExpectHeaders =>
    have hstate' : c.untimed.state = .kExpectHeaders := hstate
    simp only [hstate'] at h
    obtain ⟨rfl, -⟩ := Prod.mk.inj (Option.some.inj h)
    refine ⟨c.processHeaderLine line, buf', ?_, ?_, hrest⟩
    · simp [htake, hbuf', Except.mapError]
    · unfold processHeaderLine
      simp only
      split_ifs <;> rfl
  | kExpectBody =>
    have hstate' : c.untimed.state = .kExpectBody := hstate
    simp [hstate'] at h
  | kGotAll => exact absurd hstate hc.notGotAll

/-- The pass after which the reader has stopped ends the call. -/
theorem Resumable.iterate_finish {buf : ValidBuffer} (hc : c.Resumable)
    (h : c.untimed.headStep buf.content = none) (receiveTime : Timestamp) :
    ∃ ok c' buf', c.iterate buf receiveTime true = .ok ⟨ok, false, c', buf'⟩ ∧
      (ok, c'.untimed, buf'.content) = c.untimed.finish buf.content := by
  unfold headStep at h
  unfold iterate finish
  cases hstate : c.state with
  | kExpectRequestLine =>
    have hstate' : c.untimed.state = .kExpectRequestLine := hstate
    cases hline : firstLine buf.content with
    | none =>
      rw [findCRLF_of_firstLine_none hline]
      exact ⟨_, _, _, rfl, by simp [hstate']⟩
    | some p =>
      obtain ⟨line, rest⟩ := p
      obtain ⟨crlf, buf', hcrlf, htake, -⟩ := findCRLF_of_firstLine hline
      obtain ⟨ok, r', hr', hline'⟩ := hc.processRequestLine hstate line
      cases ok with
      | true => simp [hstate', hline, hline'] at h
      | false =>
        rw [hcrlf]
        refine ⟨false, ⟨.kExpectRequestLine, r'⟩, buf, by simp [htake, hr'], ?_⟩
        simp only [hstate', hline']
        rfl
  | kExpectHeaders =>
    have hstate' : c.untimed.state = .kExpectHeaders := hstate
    cases hline : firstLine buf.content with
    | none =>
      rw [findCRLF_of_firstLine_none hline]
      exact ⟨_, _, _, rfl, by simp [hstate']⟩
    | some p => simp [hstate', hline] at h
  | kExpectBody =>
    have hstate' : c.untimed.state = .kExpectBody := hstate
    refine ⟨_, _, _, rfl, ?_⟩
    simp only [hstate', ValidBuffer.content_retrieveAll]
    rfl
  | kGotAll => exact absurd hstate hc.notGotAll

/-- The value returned, the context without times, and the unread bytes. -/
def view (p : Parsed) : Bool × HttpContext × Bytes :=
  (p.ok, p.context.untimed, p.buf.content)

theorem view_eq {p : Parsed} {ok : Bool} {c : HttpContext} {rest : Bytes}
    (h : view p = (ok, c, rest)) :
    p.ok = ok ∧ p.context.untimed = c ∧ p.buf.content = rest := by
  obtain ⟨hok, h⟩ := Prod.mk.inj h
  exact ⟨hok, Prod.mk.inj h⟩

theorem Resumable.parseLoop {n : ℕ} {buf : ValidBuffer} (hc : c.Resumable)
    (hn : buf.content.length < n) (receiveTime : Timestamp) :
    ∃ q p, headReader.Stops (c.untimed, buf.content) q ∧
      HttpContext.parseLoop receiveTime n c buf true = .ok (some p) ∧ view p = q.1.finish q.2 := by
  induction n generalizing c buf with
  | zero => exact absurd hn (Nat.not_lt_zero _)
  | succ n ih =>
    cases hstep : c.untimed.headStep buf.content with
    | none =>
      obtain ⟨ok, c', buf', hpass, hfinish⟩ := hc.iterate_finish hstep receiveTime
      refine ⟨_, ⟨ok, c', buf'⟩, .of_none hstep, ?_, hfinish⟩
      simp [HttpContext.parseLoop, hpass]
    | some p =>
      obtain ⟨d, rest⟩ := p
      obtain ⟨c', buf', hpass, rfl, rfl⟩ := hc.iterate_step hstep receiveTime
      have hc' : c'.Resumable := c'.resumable_untimed.mp (headStep_resumable hstep)
      have hlen : buf'.content.length < buf.content.length := headReader.shrinks hstep
      have hlen' : buf'.content.length < n := by omega
      obtain ⟨q, p, hstops, hloop, hview⟩ := ih hc' hlen'
      refine ⟨q, p, ?_, ?_, hview⟩
      · exact (Reader.Reads.stops_iff (Relation.ReflTransGen.single hstep)).mpr hstops
      · simp [HttpContext.parseLoop, hpass, hloop]

/-- A call returns, no assertion fails, and what it leaves behind is the reader's stop and
`finish`. -/
theorem Resumable.parseRequest (hc : c.Resumable) (buf : ValidBuffer) (receiveTime : Timestamp) :
    ∃ q p, headReader.Stops (c.untimed, buf.content) q ∧
      c.parseRequest buf receiveTime = .ok (some p) ∧ view p = q.1.finish q.2 := by
  refine hc.parseLoop ?_ receiveTime
  rw [ValidBuffer.length_content]
  exact Nat.lt_succ_self _

/-- The loop returns what it returns, with more passes than it needs. -/
theorem parseLoop_mono {n m : ℕ} {buf : ValidBuffer} {receiveTime : Timestamp} {ok : Bool}
    {p : Parsed} (h : HttpContext.parseLoop receiveTime n c buf ok = .ok (some p)) (hle : n ≤ m) :
    HttpContext.parseLoop receiveTime m c buf ok = .ok (some p) := by
  induction n generalizing c buf ok m with
  | zero => cases h
  | succ n ih =>
    obtain ⟨m, rfl⟩ : ∃ m', m = m' + 1 := ⟨m - 1, by omega⟩
    unfold HttpContext.parseLoop at h ⊢
    obtain ⟨pass, hpass, h⟩ := bind_eq_ok_iff.mp h
    rw [hpass, ok_bind]
    split_ifs at h ⊢
    · exact ih h (by omega)
    · exact h

/-- A pass that goes on, and then the call that would start from there. -/
theorem parseRequest_of_iterate {c' : HttpContext} {buf buf' : ValidBuffer}
    {receiveTime : Timestamp}
    (hpass : c.iterate buf receiveTime true = .ok ⟨true, true, c', buf'⟩) (hc' : c'.Resumable)
    (hlen : buf'.content.length < buf.content.length) :
    c.parseRequest buf receiveTime = c'.parseRequest buf' receiveTime := by
  obtain ⟨-, p, -, hcall, -⟩ := hc'.parseRequest buf' receiveTime
  rw [ValidBuffer.length_content, ValidBuffer.length_content] at hlen
  have hmono := parseLoop_mono hcall hlen
  rw [hcall, HttpContext.parseRequest, HttpContext.parseLoop, hpass]
  exact hmono

/-- In state `kGotAll` a call does not return. -/
theorem parseLoop_gotAll (h : c.state = .kGotAll) (n : ℕ) (buf : ValidBuffer)
    (receiveTime : Timestamp) (ok : Bool) :
    HttpContext.parseLoop receiveTime n c buf ok = .ok none := by
  induction n with
  | zero => rfl
  | succ n ih => simpa [HttpContext.parseLoop, iterate, h] using ih

/-! ## Resuming -/

/-- The chunks were given to a new context one at a time, each with the time of its call, over
a buffer with nothing to read. Every call returned true, and none of them completed the
request. -/
inductive Suspended : List (Bytes × Timestamp) → HttpContext → ValidBuffer → Prop
  | start {buf : ValidBuffer} : buf.content = [] → Suspended [] new buf
  | call {chunks : List (Bytes × Timestamp)} {c : HttpContext} {buf : ValidBuffer}
      {chunk : Bytes} {receiveTime : Timestamp} {p : Parsed} : Suspended chunks c buf →
      c.parseRequest (buf.append chunk) receiveTime = .ok (some p) → p.ok = true →
      p.context.gotAll = false → Suspended (chunks ++ [(chunk, receiveTime)]) p.context p.buf

/-- The bytes of the chunks. -/
def received (chunks : List (Bytes × Timestamp)) : Bytes :=
  (chunks.map Prod.fst).flatten

/-- A call that returns true without completing the request leaves the reader where it
stopped. -/
theorem finish_suspended {u c' : HttpContext} {rest rest' : Bytes}
    (h : u.finish rest = (true, c', rest')) (hstop : u.headStep rest = none)
    (hc' : c'.state ≠ .kGotAll) : c' = u ∧ rest' = rest := by
  unfold finish at h
  unfold headStep at hstop
  split at h
  · next line rest₁ hstate hline =>
    simp only [hstate, hline] at hstop
    split at h
    · next ok r' hr' =>
      obtain ⟨rfl, -⟩ := Prod.mk.inj h
      simp [hr'] at hstop
    · obtain ⟨hok, -⟩ := Prod.mk.inj h
      cases hok
  · obtain ⟨-, hrest⟩ := Prod.mk.inj h
    obtain ⟨rfl, -⟩ := Prod.mk.inj hrest
    exact absurd rfl hc'
  · obtain ⟨-, hrest⟩ := Prod.mk.inj h
    obtain ⟨rfl, rfl⟩ := Prod.mk.inj hrest
    exact ⟨rfl, rfl⟩

theorem Suspended.reads {chunks : List (Bytes × Timestamp)} {buf : ValidBuffer}
    (h : Suspended chunks c buf) :
    c.Resumable ∧ headReader.Reads (new, received chunks) (c.untimed, buf.content) := by
  induction h with
  | start hbuf =>
    rw [hbuf]
    exact ⟨new_resumable, Relation.ReflTransGen.refl⟩
  | @call chunks c buf chunk receiveTime p _ hcall hok hgot ih =>
    obtain ⟨hc, hreads⟩ := ih
    obtain ⟨q, p', hstops, hcall', hview⟩ := hc.parseRequest (buf.append chunk) receiveTime
    obtain rfl := Option.some.inj (Except.ok.inj (hcall.symm.trans hcall'))
    have hfinish : q.1.finish q.2 = (true, p.context.untimed, p.buf.content) := by
      rw [← hview, view, hok]
    have hgot' : p.context.state ≠ .kGotAll := by simpa [gotAll] using hgot
    obtain ⟨hq, hrest⟩ := finish_suspended hfinish hstops.2 hgot'
    have hfirst := hreads.append chunk
    have hsecond := hstops.1
    rw [ValidBuffer.content_append] at hsecond
    have hall : received (chunks ++ [(chunk, receiveTime)]) = received chunks ++ chunk := by
      simp [received]
    rw [hq, hrest, hall]
    refine ⟨?_, hfirst.trans hsecond⟩
    rw [← resumable_untimed, hq]
    exact Resumable.reads (c.resumable_untimed.mpr hc) hsecond

theorem Suspended.resume {chunks : List (Bytes × Timestamp)} {buf : ValidBuffer}
    (h : Suspended chunks c buf) (chunk : Bytes) (receiveTime : Timestamp) :
    ∃ q p, headReader.Stops (new, received chunks ++ chunk) q ∧
      c.parseRequest (buf.append chunk) receiveTime = .ok (some p) ∧ view p = q.1.finish q.2 := by
  obtain ⟨hc, hreads⟩ := h.reads
  obtain ⟨q, p, hstops, hcall, hview⟩ := hc.parseRequest (buf.append chunk) receiveTime
  rw [ValidBuffer.content_append] at hstops
  exact ⟨q, p, (hreads.stops_append chunk q).mp hstops, hcall, hview⟩

end HttpContext

open HttpContext in
/-- Chunks that are given to the parser one at a time end as the whole input does in one call :
the same value returned, the same state, the same request up to its time, and the same unread
bytes. -/
theorem parseRequest_resume {chunks : List (Bytes × Timestamp)} {c : HttpContext}
    {buf : ValidBuffer} (h : Suspended chunks c buf) (chunk : Bytes)
    (receiveTime receiveTime' : Timestamp) :
    ∃ p q, c.parseRequest (buf.append chunk) receiveTime = .ok (some p) ∧
      new.parseRequest (ValidBuffer.new.append (received chunks ++ chunk)) receiveTime' =
        .ok (some q) ∧
      p.ok = q.ok ∧ p.context.state = q.context.state ∧
      p.context.request.untimed = q.context.request.untimed ∧
      p.buf.content = q.buf.content := by
  obtain ⟨r, p, hstops, hcall, hview⟩ := h.resume chunk receiveTime
  obtain ⟨r', q, hstops', hcall', hview'⟩ :=
    (Suspended.start ValidBuffer.content_new).resume (received chunks ++ chunk) receiveTime'
  obtain rfl := hstops.unique hstops'
  have heq : view p = view q := hview.trans hview'.symm
  obtain ⟨hok, hcontext, hcontent⟩ := view_eq heq
  obtain ⟨hstate, hrequest⟩ := HttpContext.mk.inj hcontext
  exact ⟨p, q, hcall, hcall', hok, hstate, hrequest, hcontent⟩

set_option maxRecDepth 20000 in
open HttpContext in
/-- A chunk that ends between CR and LF. -/
theorem parseRequest_resume_inside_crlf : ∃ c buf,
    Suspended [(ascii "GET / HTTP/1.1\r", 1)] c buf ∧
    ∃ p q, c.parseRequest (buf.append (ascii "\n\r\n")) 2 = .ok (some p) ∧
      new.parseRequest (ValidBuffer.new.append (ascii "GET / HTTP/1.1\r\n\r\n")) 3 =
        .ok (some q) ∧
      p.ok = q.ok ∧ p.context.state = q.context.state ∧
      p.context.request.untimed = q.context.request.untimed ∧ p.buf.content = q.buf.content := by
  have h : ∃ c buf, Suspended [(ascii "GET / HTTP/1.1\r", 1)] c buf :=
    ⟨_, _, .call (.start ValidBuffer.content_new) rfl rfl rfl⟩
  obtain ⟨c, buf, h⟩ := h
  exact ⟨c, buf, h, parseRequest_resume h (ascii "\n\r\n") 2 3⟩

end Tmuduo
