import Tmuduo.HttpRefused

/-!
# The end of the head, and of a call

The header section ends at the first line without a colon, which need not be the empty line.
`Fed` are the contexts and buffers that a new context leads to when input arrives in chunks and
`parseRequest` is called on it; `EndsAtEmptyLine` says that a complete request ended as its text
does. `head_ends_at_empty_line_iff` says for which input that is so.

No branch of the loop of `parseRequest` is for state `kGotAll`. `loopEnds_iff` says that the loop
ends in every other state, whatever calls have led there.
-/

set_option autoImplicit false

namespace Tmuduo

open HttpContext

/-! ## Lines and their text -/

/-- The lines, each followed by CRLF. -/
def joinLines (ls : List Bytes) : Bytes :=
  ls.flatMap (· ++ Buffer.kCRLF)

@[simp] theorem joinLines_cons (l : Bytes) (ls : List Bytes) :
    joinLines (l :: ls) = l ++ (Buffer.kCRLF ++ joinLines ls) := by
  simp [joinLines]

/-- A text that is a line. -/
def IsLine (l : Bytes) : Prop :=
  ¬Buffer.kCRLF <:+: l

theorem isLine_nil : IsLine [] := by
  rw [IsLine, List.infix_nil]
  decide

theorem firstLine_of_isLine {l : Bytes} (h : IsLine l) (rest : Bytes) :
    firstLine (l ++ (Buffer.kCRLF ++ rest)) = some (l, rest) := by
  refine firstLine_of_search ?_
  have hhead : (Buffer.kCRLF ++ rest).head? ≠ some '\n'.toUInt8 := by
    change some '\r'.toUInt8 ≠ _
    decide
  have hfound : search Buffer.kCRLF (Buffer.kCRLF ++ rest) = some 0 :=
    if_pos (List.prefix_append Buffer.kCRLF rest)
  have hsearch := search_append_of_not_infix (p := '\r'.toUInt8) hhead h
  rw [show ['\r'.toUInt8, '\n'.toUInt8] = Buffer.kCRLF from rfl, hfound] at hsearch
  simpa using hsearch

theorem firstLine_eq {xs line rest : Bytes} (h : firstLine xs = some (line, rest)) :
    IsLine line ∧ xs = line ++ (Buffer.kCRLF ++ rest) := by
  obtain ⟨crlf, hcrlf, heq⟩ := Option.map_eq_some_iff.mp h
  obtain ⟨rfl, rfl⟩ := Prod.mk.inj heq
  refine ⟨not_infix_of_search (by decide) hcrlf, ?_⟩
  obtain ⟨tail, htail⟩ := search_spec hcrlf
  have hrest : xs.drop (crlf + 2) = tail := by
    rw [← List.drop_drop, ← htail]
    exact @List.drop_left _ Buffer.kCRLF tail
  rw [hrest, htail, List.take_append_drop]

/-- The text of some lines is read as these lines. -/
theorem lines_joinLines {ls : List Bytes} (h : ∀ l ∈ ls, IsLine l) (rest : Bytes) :
    lines (joinLines ls ++ rest) = ls ++ lines rest := by
  induction ls with
  | nil => rfl
  | cons l ls ih =>
    have hfirst := firstLine_of_isLine (h l List.mem_cons_self) (joinLines ls ++ rest)
    have htail := ih fun l' hl' => h l' (List.mem_cons_of_mem l hl')
    rw [joinLines_cons, List.append_assoc, List.append_assoc, lines_eq_cons hfirst, htail,
      List.cons_append]

/-! ## The lines of the head -/

namespace HttpContext

/-- From the header section the reader gets to the body over headers, and then one line without a
colon. -/
theorem reads_headers {c d : HttpContext} {xs rest : Bytes} (hc : c.state = .kExpectHeaders)
    (h : headReader.Reads (c, xs) (d, rest)) (hd : d.state = .kExpectBody) :
    ∃ headers plain, (∀ l ∈ headers, ':'.toUInt8 ∈ l) ∧ ':'.toUInt8 ∉ plain ∧
      (∀ l ∈ headers ++ [plain], IsLine l) ∧ xs = joinLines (headers ++ [plain]) ++ rest := by
  generalize hp : (c, xs) = p at h
  induction h using Relation.ReflTransGen.head_induction_on generalizing c xs with
  | refl =>
    obtain ⟨rfl, -⟩ := Prod.mk.inj hp
    rw [hc] at hd
    cases hd
  | @head p q hstep hreads ih =>
    subst hp
    obtain ⟨c', rest'⟩ := q
    obtain ⟨line, hline⟩ := headStep_firstLine hstep
    obtain ⟨hisLine, rfl⟩ := firstLine_eq hline
    have hnext : c' = c.processHeaderLine line := by
      simp only [headReader, headStep, hc, hline, Option.some.injEq, Prod.mk.injEq] at hstep
      exact hstep.1.symm
    by_cases hcolon : ':'.toUInt8 ∈ line
    · have hc' : c'.state = .kExpectHeaders := by
        rw [hnext, processHeaderLine_of_mem c hcolon]
        exact hc
      obtain ⟨headers, plain, hheaders, hplain, hlines, rfl⟩ := ih hc' rfl
      refine ⟨line :: headers, plain, ?_, hplain, ?_, ?_⟩
      · exact List.forall_mem_cons.mpr ⟨hcolon, hheaders⟩
      · exact List.forall_mem_cons.mpr ⟨hisLine, hlines⟩
      · rw [List.cons_append, joinLines_cons, List.append_assoc, List.append_assoc]
    · have hbody : c'.state = .kExpectBody := by
        rw [hnext, processHeaderLine_of_not_mem c hcolon]
      have hstop : headReader.Stops (c', rest') (c', rest') :=
        .of_none (by simp [headReader, headStep, hbody])
      have hlast : headReader.Stops (d, rest) (d, rest) :=
        .of_none (by simp [headReader, headStep, hd])
      have heq := hstop.unique ((Reader.Reads.stops_iff hreads).mpr hlast)
      obtain ⟨-, rfl⟩ := Prod.mk.inj heq
      refine ⟨[], line, by simp, hcolon, by simpa using hisLine, ?_⟩
      simp [joinLines]

/-- A new context gets to the body over a request line, headers, and one line without a colon. -/
theorem reads_head {d : HttpContext} {xs rest : Bytes} (h : headReader.Reads (new, xs) (d, rest))
    (hd : d.state = .kExpectBody) :
    ∃ line headers plain, IsRequestLine line ∧ (∀ l ∈ headers, ':'.toUInt8 ∈ l) ∧
      ':'.toUInt8 ∉ plain ∧ (∀ l ∈ line :: (headers ++ [plain]), IsLine l) ∧
      xs = joinLines (line :: (headers ++ [plain])) ++ rest := by
  rcases Relation.ReflTransGen.cases_head h with heq | ⟨⟨c, rest'⟩, hstep, hreads⟩
  · obtain ⟨rfl, -⟩ := Prod.mk.inj heq
    cases hd
  · obtain ⟨line, hline⟩ := headStep_firstLine hstep
    obtain ⟨hisLine, rfl⟩ := firstLine_eq hline
    obtain ⟨ok, r, hr, hok, -⟩ := processRequestLine_spec (r := HttpRequest.new) rfl line
    have hnew : new.headStep (line ++ (Buffer.kCRLF ++ rest')) = some (c, rest') := hstep
    simp only [headStep, new, hline, hr] at hnew
    cases ok with
    | false => cases hnew
    | true =>
      obtain ⟨rfl, -⟩ := Prod.mk.inj (Option.some.inj hnew)
      obtain ⟨headers, plain, hheaders, hplain, hlines, rfl⟩ := reads_headers rfl hreads hd
      refine ⟨line, headers, plain, hok.mp rfl, hheaders, hplain, ?_, ?_⟩
      · exact List.forall_mem_cons.mpr ⟨hisLine, hlines⟩
      · rw [joinLines_cons, List.append_assoc, List.append_assoc]

/-! ## Input in chunks -/

/-- The bytes `xs` have been given to a new context, over any buffer and in any chunks, and
`parseRequest` was called between them any number of times, whatever it returned. -/
inductive Fed : Bytes → HttpContext → ValidBuffer → Prop
  | start (buf : ValidBuffer) : Fed buf.content new buf
  | append {xs : Bytes} {c : HttpContext} {buf : ValidBuffer} (chunk : Bytes) :
      Fed xs c buf → Fed (xs ++ chunk) c (buf.append chunk)
  | call {xs : Bytes} {c : HttpContext} {buf : ValidBuffer} {receiveTime : Timestamp}
      {p : Parsed} : Fed xs c buf → c.parseRequest buf receiveTime = .ok (some p) →
      Fed xs p.context p.buf

/-- Where the context stands in the bytes `xs` : it reads the head, it has refused the first line
and kept its method, or it has the request, and the bytes after the head are the body and what
came later. -/
inductive Stands (xs : Bytes) (c : HttpContext) (buf : ValidBuffer) : Prop
  | reading (hc : c.Resumable) (h : headReader.Reads (new, xs) (c.untimed, buf.content))
  | refused {line rest : Bytes} (hstate : c.state = .kExpectRequestLine)
      (hmethod : c.request.method ≠ .kInvalid) (hline : firstLine buf.content = some (line, rest))
      (hspace : ' '.toUInt8 ∈ line)
  | done {d : HttpContext} (hstate : c.state = .kGotAll) (hd : d.state = .kExpectBody)
      (h : headReader.Reads (new, xs) (d, c.request.body ++ buf.content))

theorem Stands.append {xs : Bytes} {c : HttpContext} {buf : ValidBuffer} (h : Stands xs c buf)
    (chunk : Bytes) : Stands (xs ++ chunk) c (buf.append chunk) := by
  cases h with
  | reading hc h =>
    refine .reading hc ?_
    rw [ValidBuffer.content_append]
    exact h.append chunk
  | refused hstate hmethod hline hspace =>
    have hline' := firstLine_append chunk hline
    rw [← ValidBuffer.content_append] at hline'
    exact .refused hstate hmethod hline' hspace
  | done hstate hd h =>
    refine .done hstate hd ?_
    rw [ValidBuffer.content_append, ← List.append_assoc]
    exact h.append chunk

/-- A call that stops where the reader of `xs` does. -/
theorem Stands.of_stops {xs : Bytes} {q : HttpContext × Bytes} {p : Parsed}
    (hnew : headReader.Stops (new, xs) q) (hview : view p = q.1.finish q.2) :
    Stands xs p.context p.buf := by
  rcases stops_new_cases hnew with ⟨-, -, hbody⟩ | ⟨-, -, ok, hfinish⟩ |
    ⟨-, hleft, r, hr, hfinish⟩
  · have hfinish : q.1.finish q.2 = (true, ⟨.kGotAll, q.1.request.setBody q.2⟩, []) := by
      simp [finish, hbody]
    obtain ⟨-, hcontext, hcontent⟩ := view_eq (hview.trans hfinish)
    obtain ⟨hstate, hrequest⟩ := HttpContext.mk.inj hcontext
    have hrest : p.context.request.body = q.2 := congrArg HttpRequest.body hrequest
    refine .done (d := q.1) hstate hbody ?_
    rw [hcontent, hrest, List.append_nil]
    exact hnew.1
  · obtain ⟨-, hcontext, hcontent⟩ := view_eq (hview.trans hfinish)
    have hq : q.1.Resumable := new_resumable.reads hnew.1
    rw [← hcontext, resumable_untimed] at hq
    refine .reading hq ?_
    rw [hcontext, hcontent]
    exact hnew.1
  · obtain ⟨-, hcontext, hcontent⟩ := view_eq (hview.trans hfinish)
    obtain ⟨hstate, hrequest⟩ := HttpContext.mk.inj hcontext
    obtain ⟨line, rest, hline, hspace⟩ := hleft.firstLine
    rw [← hrequest] at hr
    rw [← hcontent] at hline
    exact .refused hstate hr hline hspace

theorem Stands.call {xs : Bytes} {c : HttpContext} {buf : ValidBuffer} (h : Stands xs c buf)
    {receiveTime : Timestamp} {p : Parsed}
    (hcall : c.parseRequest buf receiveTime = .ok (some p)) : Stands xs p.context p.buf := by
  cases h with
  | reading hc h =>
    obtain ⟨q, p', hstops, hcall', hview⟩ := hc.parseRequest buf receiveTime
    obtain rfl := Option.some.inj (Except.ok.inj (hcall.symm.trans hcall'))
    exact .of_stops ((Reader.Reads.stops_iff h).mpr hstops) hview
  | refused hstate hmethod hline hspace =>
    rw [parseRequest_method_set hstate hmethod hline hspace] at hcall
    cases hcall
  | done hstate _ _ =>
    rw [HttpContext.parseRequest, parseLoop_gotAll hstate] at hcall
    cases hcall

theorem Fed.stands {xs : Bytes} {c : HttpContext} {buf : ValidBuffer} (h : Fed xs c buf) :
    Stands xs c buf := by
  induction h with
  | start buf => exact .reading new_resumable Relation.ReflTransGen.refl
  | append chunk _ ih => exact ih.append chunk
  | call _ hcall ih => exact ih.call hcall

end HttpContext

/-- The bytes `xs` are a request line, lines with a colon, the empty line, and then what the
request has as its body and the buffer after it. -/
def EndsAtEmptyLine (xs : Bytes) (c : HttpContext) (buf : ValidBuffer) : Prop :=
  ∃ line headers, IsRequestLine line ∧ (∀ l ∈ headers, ':'.toUInt8 ∈ l) ∧
    (∀ l ∈ line :: headers, IsLine l) ∧
    xs = joinLines (line :: (headers ++ [[]])) ++ (c.request.body ++ buf.content)

/-- The first line without a colon, after the request line, is empty. -/
def PlainLineEmpty (xs : Bytes) : Prop :=
  (lines xs).tail.find? (':'.toUInt8 ∉ ·) = some []

theorem find?_plain {headers : List Bytes} {plain : Bytes} (more : List Bytes)
    (hheaders : ∀ l ∈ headers, ':'.toUInt8 ∈ l) (hplain : ':'.toUInt8 ∉ plain) :
    (headers ++ plain :: more).find? (':'.toUInt8 ∉ ·) = some plain := by
  rw [List.find?_append, List.find?_eq_none.mpr fun l hl => by simpa using hheaders l hl,
    Option.none_or, List.find?_cons_of_pos (by simpa using hplain)]

theorem EndsAtEmptyLine.plainLineEmpty {xs : Bytes} {c : HttpContext} {buf : ValidBuffer}
    (h : EndsAtEmptyLine xs c buf) : PlainLineEmpty xs := by
  obtain ⟨line, headers, -, hheaders, hlines, heq⟩ := h
  have hall : ∀ l ∈ line :: (headers ++ [[]]), IsLine l := by
    intro l hl
    rw [← List.cons_append, List.mem_append, List.mem_singleton] at hl
    rcases hl with hl | rfl
    · exact hlines l hl
    · exact isLine_nil
  rw [PlainLineEmpty, heq, lines_joinLines hall, List.cons_append, List.tail_cons,
    List.append_assoc]
  exact find?_plain _ hheaders (by simp)

/-- For every input and every way it arrives, a request that is complete ended at the empty line,
with its body right after it, if and only if the first line without a colon is empty. -/
theorem head_ends_at_empty_line_iff {xs : Bytes} {c : HttpContext} {buf : ValidBuffer}
    (h : Fed xs c buf) (hgot : c.gotAll = true) :
    EndsAtEmptyLine xs c buf ↔ PlainLineEmpty xs := by
  have hstate : c.state = .kGotAll := of_decide_eq_true hgot
  refine ⟨fun hends => hends.plainLineEmpty, fun hempty => ?_⟩
  cases h.stands with
  | reading hc _ => exact absurd hstate hc.notGotAll
  | refused hline _ _ _ =>
    rw [hstate] at hline
    cases hline
  | done _ hd hreads =>
    obtain ⟨line, headers, plain, hline, hheaders, hplain, hlines, heq⟩ := reads_head hreads hd
    rw [PlainLineEmpty, heq, lines_joinLines hlines, List.cons_append, List.tail_cons,
      List.append_assoc, List.singleton_append, find?_plain _ hheaders hplain] at hempty
    obtain rfl := Option.some.inj hempty
    refine ⟨line, headers, hline, hheaders, fun l hl => hlines l ?_, heq⟩
    rw [← List.cons_append]
    exact List.mem_append_left _ hl

/-- The first chunk over a buffer with nothing to read. -/
theorem fed_new_append (chunk : Bytes) : Fed chunk new (ValidBuffer.new.append chunk) := by
  have h := Fed.append chunk (.start .new)
  rwa [ValidBuffer.content_new, List.nil_append] at h

set_option maxRecDepth 20000 in
/-- A request in two chunks, cut before the empty line, with a body that has lines. -/
theorem head_ends_at_empty_line_two_chunks : ∃ c buf,
    Fed (ascii "PUT /a HTTP/1.1\r\nHost: x\r\n" ++ ascii "\r\nb\r\n\r\n") c buf ∧
    c.gotAll = true ∧
    EndsAtEmptyLine (ascii "PUT /a HTTP/1.1\r\nHost: x\r\n" ++ ascii "\r\nb\r\n\r\n") c buf := by
  have hfed : ∃ c buf, Fed (ascii "PUT /a HTTP/1.1\r\nHost: x\r\n" ++ ascii "\r\nb\r\n\r\n")
      c buf ∧ c.gotAll = true :=
    ⟨_, _, @Fed.call _ _ _ 2 _ (.append _ (@Fed.call _ _ _ 1 _ (fed_new_append _) rfl)) rfl, rfl⟩
  obtain ⟨c, buf, h, hgot⟩ := hfed
  exact ⟨c, buf, h, hgot, (head_ends_at_empty_line_iff h hgot).mpr rfl⟩

set_option maxRecDepth 20000 in
/-- A line with no colon that is not the end of the head : the header after it becomes the
body. -/
theorem head_ends_at_plain_line : ∃ c buf,
    Fed (ascii "GET / HTTP/1.1\r\nfoo\r\nHost: x\r\n\r\n") c buf ∧ c.gotAll = true ∧
    c.request.body = ascii "Host: x\r\n\r\n" ∧
    ¬EndsAtEmptyLine (ascii "GET / HTTP/1.1\r\nfoo\r\nHost: x\r\n\r\n") c buf := by
  have hfed : ∃ c buf, Fed (ascii "GET / HTTP/1.1\r\nfoo\r\nHost: x\r\n\r\n") c buf ∧
      c.gotAll = true ∧ c.request.body = ascii "Host: x\r\n\r\n" :=
    ⟨_, _, @Fed.call _ _ _ 1 _ (fed_new_append _) rfl, rfl, rfl⟩
  obtain ⟨c, buf, h, hgot, hbody⟩ := hfed
  refine ⟨c, buf, h, hgot, hbody, fun hends => ?_⟩
  cases hends.plainLineEmpty

/-! ## The end of a call -/

namespace HttpContext

/-- The loop of `parseRequest` ends after finitely many passes : the call returns, or an assertion
fails. -/
def LoopEnds (c : HttpContext) (buf : ValidBuffer) (receiveTime : Timestamp) : Prop :=
  ∃ n, parseLoop receiveTime n c buf true ≠ .ok none

/-- A context that has kept the method of a refused line. -/
theorem loopEnds_of_method_set {c : HttpContext} (hstate : c.state = .kExpectRequestLine)
    (hmethod : c.request.method ≠ .kInvalid) (buf : ValidBuffer) (receiveTime : Timestamp) :
    LoopEnds c buf receiveTime := by
  refine ⟨buf.readableBytes + 1, ?_⟩
  cases hline : firstLine buf.content with
  | none => simp [parseLoop, iterate, hstate, findCRLF_of_firstLine_none hline]
  | some q =>
    obtain ⟨line, rest⟩ := q
    by_cases hspace : ' '.toUInt8 ∈ line
    · have hcall := parseRequest_method_set hstate hmethod hline hspace receiveTime
      rw [HttpContext.parseRequest] at hcall
      simp [hcall]
    · obtain ⟨crlf, -, hcrlf, htake, -⟩ := findCRLF_of_firstLine hline
      simp [parseLoop, iterate, hstate, hcrlf, htake, processRequestLine_no_space _ hspace]

theorem loopEnds_iff (c : HttpContext) (buf : ValidBuffer) (receiveTime : Timestamp) :
    LoopEnds c buf receiveTime ↔ c.state ≠ .kGotAll := by
  constructor
  · rintro ⟨n, hn⟩ hstate
    exact hn (parseLoop_gotAll hstate n buf receiveTime true)
  · intro hstate
    by_cases hset : c.state = .kExpectRequestLine ∧ c.request.method ≠ .kInvalid
    · exact loopEnds_of_method_set hset.1 hset.2 buf receiveTime
    · have hc : c.Resumable := ⟨fun h => by_contra fun hm => hset ⟨h, hm⟩, hstate⟩
      obtain ⟨-, p, -, hcall, -⟩ := hc.parseRequest buf receiveTime
      refine ⟨buf.readableBytes + 1, fun hnone => ?_⟩
      cases hcall.symm.trans hnone

/-- The calls on a context that its users make. -/
inductive Call
  | parseRequest (buf : ValidBuffer) (receiveTime : Timestamp)
  | reset

/-- The calls are made one after the other, each on the context that the one before has left, and
the loop of each `parseRequest` among them ends. -/
def AllLoopsEnd (c : HttpContext) : List Call → Prop
  | [] => True
  | .parseRequest buf receiveTime :: calls => LoopEnds c buf receiveTime ∧
      ∀ p, c.parseRequest buf receiveTime = .ok (some p) → AllLoopsEnd p.context calls
  | .reset :: calls => AllLoopsEnd c.reset calls

/-- Of these calls, no `parseRequest` is made on a complete request that has not been reset. -/
def ResetAfterRequest (c : HttpContext) : List Call → Prop
  | [] => True
  | .parseRequest buf receiveTime :: calls => c.state ≠ .kGotAll ∧
      ∀ p, c.parseRequest buf receiveTime = .ok (some p) → ResetAfterRequest p.context calls
  | .reset :: calls => ResetAfterRequest c.reset calls

theorem allLoopsEnd_iff_of (c : HttpContext) (calls : List Call) :
    AllLoopsEnd c calls ↔ ResetAfterRequest c calls := by
  induction calls generalizing c with
  | nil => exact Iff.rfl
  | cons call calls ih =>
    cases call with
    | parseRequest buf receiveTime =>
      simp only [AllLoopsEnd, ResetAfterRequest, loopEnds_iff, ih]
    | reset => exact ih c.reset

/-- For every sequence of calls on a new context, with any buffers : all its loops end, if and only
if a complete request is reset before `parseRequest` is called again. -/
theorem parseRequest_loops_end_iff (calls : List Call) :
    AllLoopsEnd .new calls ↔ ResetAfterRequest .new calls :=
  allLoopsEnd_iff_of .new calls

set_option maxRecDepth 20000 in
/-- A second call after a complete request : its loop does not end. -/
theorem parseRequest_loop_runs_on :
    ¬AllLoopsEnd .new [.parseRequest (ValidBuffer.new.append (ascii "GET / HTTP/1.1\r\n\r\n")) 1,
      .parseRequest .new 2] := by
  rintro ⟨-, hnext⟩
  have hsecond : ∃ p, new.parseRequest (ValidBuffer.new.append (ascii "GET / HTTP/1.1\r\n\r\n")) 1 =
      .ok (some p) ∧ p.context.state = .kGotAll := ⟨_, rfl, rfl⟩
  obtain ⟨p, hcall, hstate⟩ := hsecond
  exact (loopEnds_iff p.context .new 2).mp (hnext p hcall).1 hstate

end HttpContext

end Tmuduo
