import Tmuduo.HttpFraming

/-!
# Refused request lines

`processRequestLine` stores the method before it looks at the rest of the line. When it then
refuses the line, the method stays set, the line stays in the buffer, and the next call of
`onMessage` reads it again; `setMethod` then finds a method.

`IsRequestLine` and `NamesMethod` say what the two checks of the parser are about, and
`processRequestLine_spec` is the parser in these terms. `MethodLeft` are the inputs that leave a
method behind. `Tracks` relates a connection to the bytes it received since its last request, and
`setMethod_assert_iff` says which sequences of chunks make the assertion fail.
-/

set_option autoImplicit false

namespace Tmuduo

open HttpContext

/-! ## Request lines -/

/-- The line starts with a method and a space. -/
def NamesMethod (line : Bytes) : Prop :=
  ∃ method : Method, method ≠ .kInvalid ∧ ∃ rest, line = method.toBytes ++ ' '.toUInt8 :: rest

/-- The line is a method, a target and the version HTTP/1.0 or HTTP/1.1, with one space between
them. -/
def IsRequestLine (line : Bytes) : Prop :=
  ∃ method : Method, method ≠ .kInvalid ∧ ∃ target version, ' '.toUInt8 ∉ target ∧
    (version = ascii "HTTP/1.0" ∨ version = ascii "HTTP/1.1") ∧
    line = method.toBytes ++ ' '.toUInt8 :: (target ++ ' '.toUInt8 :: version)

theorem IsRequestLine.namesMethod {line : Bytes} (h : IsRequestLine line) : NamesMethod line := by
  obtain ⟨method, hvalid, target, version, -, -, rfl⟩ := h
  exact ⟨method, hvalid, _, rfl⟩

theorem NamesMethod.space_mem {line : Bytes} (h : NamesMethod line) : ' '.toUInt8 ∈ line := by
  obtain ⟨method, -, rest, rfl⟩ := h
  exact List.mem_append_right _ List.mem_cons_self

theorem space_not_mem_toBytes (method : Method) : ' '.toUInt8 ∉ method.toBytes :=
  fun h => HttpMessage.toBytes_avoids method _ h (by decide)

/-- A line with a space is cut at its first one in one way only. -/
theorem namesMethod_iff {m rest : Bytes} (hm : ' '.toUInt8 ∉ m) :
    NamesMethod (m ++ ' '.toUInt8 :: rest) ↔ Method.ofBytes m ≠ .kInvalid := by
  constructor
  · rintro ⟨method, hvalid, rest', heq⟩
    obtain ⟨rfl, -⟩ := append_cons_inj hm (space_not_mem_toBytes method) heq
    rwa [Method.ofBytes_toBytes method hvalid]
  · intro hknown
    exact ⟨_, hknown, rest, by rw [Method.toBytes_ofBytes hknown]⟩

theorem isRequestLine_iff {m rest : Bytes} (hm : ' '.toUInt8 ∉ m) :
    IsRequestLine (m ++ ' '.toUInt8 :: rest) ↔ Method.ofBytes m ≠ .kInvalid ∧
      ∃ target version, ' '.toUInt8 ∉ target ∧
        (version = ascii "HTTP/1.0" ∨ version = ascii "HTTP/1.1") ∧
        rest = target ++ ' '.toUInt8 :: version := by
  constructor
  · rintro ⟨method, hvalid, target, version, htarget, hversion, heq⟩
    obtain ⟨rfl, rfl⟩ := append_cons_inj hm (space_not_mem_toBytes method) heq
    rw [Method.ofBytes_toBytes method hvalid]
    exact ⟨hvalid, target, version, htarget, hversion, rfl⟩
  · rintro ⟨hknown, target, version, htarget, hversion, rfl⟩
    exact ⟨_, hknown, target, version, htarget, hversion, by rw [Method.toBytes_ofBytes hknown]⟩

namespace HttpContext

theorem processVersion_ok_iff (r : HttpRequest) (version : Bytes) :
    (processVersion r version).1 = true ↔
      version = ascii "HTTP/1.0" ∨ version = ascii "HTTP/1.1" := by
  have hone : ascii "HTTP/1.1" = ascii "HTTP/1." ++ ['1'.toUInt8] := rfl
  have hzero : ascii "HTTP/1.0" = ascii "HTTP/1." ++ ['0'.toUInt8] := rfl
  have hlen : (ascii "HTTP/1.").length = 7 := rfl
  rcases List.eq_nil_or_concat version with rfl | ⟨start, c, rfl⟩
  · exact iff_of_false (by simp [processVersion]) (by decide)
  · rw [List.concat_eq_append, hone, hzero, List.append_singleton_inj, List.append_singleton_inj]
    unfold processVersion
    rw [List.dropLast_concat, List.getLast?_concat, List.length_append, List.length_singleton]
    by_cases hstart : start = ascii "HTTP/1."
    · subst hstart
      rw [if_pos ⟨by rw [hlen], rfl⟩]
      split_ifs with hc hc' <;> simp_all
    · rw [if_neg fun h => hstart h.2]
      simp [hstart]

theorem processVersion_method (r : HttpRequest) (version : Bytes) :
    (processVersion r version).2.method = r.method := by
  unfold processVersion
  split_ifs <;> rfl

theorem processTarget_method (r : HttpRequest) (target : Bytes) :
    (processTarget r target).method = r.method := by
  unfold processTarget
  simp only
  split_ifs <;> rfl

theorem processRequestLine_no_space {line : Bytes} (r : HttpRequest)
    (h : ' '.toUInt8 ∉ line) : processRequestLine r line = .ok (false, r) := by
  simp [processRequestLine, List.idxOf_eq_length h]

/-- A line whose first word is not a method, or that has no second space. -/
theorem processRequestLine_refused {r : HttpRequest} {m rest : Bytes} (hr : r.method = .kInvalid)
    (hm : ' '.toUInt8 ∉ m) (h : Method.ofBytes m = .kInvalid ∨ ' '.toUInt8 ∉ rest) :
    processRequestLine r (m ++ ' '.toUInt8 :: rest) =
      .ok (false, { r with method := Method.ofBytes m }) := by
  have hstart : (m ++ ' '.toUInt8 :: rest).drop (m.length + 1) = rest := by
    rw [← List.drop_drop, List.drop_left, List.drop_one, List.tail_cons]
  unfold processRequestLine
  simp only [idxOf_append_cons hm, List.take_left, HttpRequest.setMethod_ok hr, ok_bind, hstart]
  rcases h with hinvalid | hnone
  · simp [hinvalid]
  · simp [List.idxOf_eq_length hnone]

/-- A line with a space is not read when the method is set. -/
theorem processRequestLine_method_set {r : HttpRequest} {line : Bytes} (hr : r.method ≠ .kInvalid)
    (h : ' '.toUInt8 ∈ line) : processRequestLine r line = .error .setMethod := by
  have hlt : line.idxOf ' '.toUInt8 < line.length := List.idxOf_lt_length_of_mem h
  unfold processRequestLine HttpRequest.setMethod
  simp only [check_of_not _ hr, if_pos hlt.ne]
  rfl

theorem parseRequest_method_set {c : HttpContext} {buf : ValidBuffer} {line rest : Bytes}
    (hstate : c.state = .kExpectRequestLine) (hmethod : c.request.method ≠ .kInvalid)
    (hline : firstLine buf.content = some (line, rest)) (hspace : ' '.toUInt8 ∈ line)
    (receiveTime : Timestamp) : c.parseRequest buf receiveTime = .error .setMethod := by
  obtain ⟨crlf, -, hcrlf, htake, -⟩ := findCRLF_of_firstLine hline
  have hpass : c.iterate buf receiveTime true = .error .setMethod := by
    simp only [iterate, hstate, hcrlf, htake, processRequestLine_method_set hmethod hspace]
    rfl
  unfold parseRequest parseLoop
  rw [hpass]
  rfl

/-- What the parser does with a line : it accepts a request line, and the method is set by a line
that names one, accepted or not. -/
theorem processRequestLine_spec {r : HttpRequest} (hr : r.method = .kInvalid) (line : Bytes) :
    ∃ ok r', processRequestLine r line = .ok (ok, r') ∧ (ok = true ↔ IsRequestLine line) ∧
      (r'.method ≠ .kInvalid ↔ NamesMethod line) ∧ (r'.method = .kInvalid → r' = r) := by
  by_cases hspace : ' '.toUInt8 ∈ line
  · obtain ⟨m, rest, rfl, hm⟩ := List.eq_append_cons_of_mem hspace
    rw [isRequestLine_iff hm, namesMethod_iff hm]
    by_cases hknown : Method.ofBytes m = .kInvalid
    · refine ⟨_, _, processRequestLine_refused hr hm (.inl hknown), ?_, Iff.rfl, fun _ => ?_⟩
      · simp [hknown]
      · rw [hknown, ← hr]
    · by_cases hsecond : ' '.toUInt8 ∈ rest
      · obtain ⟨target, version, rfl, htarget⟩ := List.eq_append_cons_of_mem hsecond
        have hline : processRequestLine r
            (m ++ ' '.toUInt8 :: (target ++ ' '.toUInt8 :: version)) = _ :=
          processRequestLine_words hr hm htarget hknown
        have hok := processVersion_ok_iff
          (processTarget { r with method := Method.ofBytes m } target) version
        have hmethod := processVersion_method
          (processTarget { r with method := Method.ofBytes m } target) version
        rw [processTarget_method] at hmethod
        generalize processVersion (processTarget { r with method := Method.ofBytes m } target)
          version = p at hline hok hmethod
        obtain ⟨ok, r'⟩ := p
        simp only at hmethod hok
        refine ⟨ok, r', hline, hok.trans ⟨fun h => ?_, ?_⟩, by rw [hmethod], fun h => ?_⟩
        · exact ⟨hknown, target, version, htarget, h, rfl⟩
        · rintro ⟨-, target', version', htarget', h, heq⟩
          obtain ⟨-, rfl⟩ := append_cons_inj htarget htarget' heq
          exact h
        · exact absurd (hmethod.symm.trans h) hknown
      · refine ⟨_, _, processRequestLine_refused hr hm (.inr hsecond), ?_, Iff.rfl,
          fun h => absurd h hknown⟩
        constructor
        · rintro ⟨⟩
        · rintro ⟨-, target, version, -, -, rfl⟩
          exact absurd (List.mem_append_right _ List.mem_cons_self) hsecond
  · refine ⟨_, _, processRequestLine_no_space r hspace, ?_, ?_, fun _ => rfl⟩
    · exact iff_of_false (by simp) fun h => hspace h.namesMethod.space_mem
    · exact iff_of_false (by simp [hr]) fun h => hspace h.space_mem

end HttpContext

/-! ## What a sequence of bytes holds -/

/-- The first lines that the bytes hold complete, `n` at most. -/
def linesLoop : ℕ → Bytes → List Bytes
  | 0, _ => []
  | n + 1, xs =>
    match firstLine xs with
    | some (line, rest) => line :: linesLoop n rest
    | none => []

/-- The lines that the bytes hold complete, each without its CRLF. -/
def lines (xs : Bytes) : List Bytes :=
  linesLoop xs.length xs

theorem linesLoop_eq {n k : ℕ} {xs : Bytes} (hn : xs.length ≤ n) (hk : xs.length ≤ k) :
    linesLoop n xs = linesLoop k xs := by
  induction n generalizing k xs with
  | zero =>
    obtain rfl := List.length_eq_zero_iff.mp (Nat.le_zero.mp hn)
    cases k <;> rfl
  | succ n ih =>
    cases hline : firstLine xs with
    | none => cases k <;> simp [linesLoop, hline]
    | some p =>
      obtain ⟨line, rest⟩ := p
      have hlen := firstLine_length hline
      obtain ⟨k, rfl⟩ : ∃ k', k = k' + 1 := ⟨k - 1, by omega⟩
      simp only [linesLoop, hline]
      rw [ih (k := k) (by omega) (by omega)]

theorem lines_eq_nil {xs : Bytes} (h : firstLine xs = none) : lines xs = [] := by
  unfold lines
  cases xs.length <;> simp [linesLoop, h]

theorem lines_eq_cons {xs line rest : Bytes} (h : firstLine xs = some (line, rest)) :
    lines xs = line :: lines rest := by
  have hlen := firstLine_length h
  obtain ⟨n, hn⟩ : ∃ n, xs.length = n + 1 := ⟨xs.length - 1, by omega⟩
  rw [lines, hn, linesLoop, h]
  exact congrArg (line :: ·) (linesLoop_eq (by omega) le_rfl)

/-- The head of a request is there to its end : a request line, and a later line without a
colon. -/
def HeadComplete (xs : Bytes) : Prop :=
  ∃ line rest, lines xs = line :: rest ∧ IsRequestLine line ∧ ∃ l ∈ rest, ':'.toUInt8 ∉ l

/-- The first line is complete and names a method, and is not a request line. -/
def MethodLeft (xs : Bytes) : Prop :=
  ∃ line rest, lines xs = line :: rest ∧ NamesMethod line ∧ ¬IsRequestLine line

theorem not_methodLeft_nil : ¬MethodLeft [] := by
  rintro ⟨line, rest, h, -⟩
  cases h

theorem methodLeft_iff {xs line rest : Bytes} (h : firstLine xs = some (line, rest)) :
    MethodLeft xs ↔ NamesMethod line ∧ ¬IsRequestLine line := by
  simp [MethodLeft, lines_eq_cons h]

/-- The line that leaves a method has a space. -/
theorem MethodLeft.firstLine {xs : Bytes} (h : MethodLeft xs) :
    ∃ line rest, HttpContext.firstLine xs = some (line, rest) ∧ ' '.toUInt8 ∈ line := by
  cases hline : HttpContext.firstLine xs with
  | none =>
    obtain ⟨line, rest, hlines, -⟩ := h
    rw [lines_eq_nil hline] at hlines
    cases hlines
  | some p =>
    obtain ⟨line, rest⟩ := p
    exact ⟨line, rest, rfl, ((methodLeft_iff hline).mp h).1.space_mem⟩

theorem headComplete_iff {xs line rest : Bytes} (h : firstLine xs = some (line, rest)) :
    HeadComplete xs ↔ IsRequestLine line ∧ ∃ l ∈ lines rest, ':'.toUInt8 ∉ l := by
  simp [HeadComplete, lines_eq_cons h]

/-! ## Where the parser stops -/

namespace HttpContext

theorem processHeaderLine_of_mem {line : Bytes} (c : HttpContext) (h : ':'.toUInt8 ∈ line) :
    c.processHeaderLine line =
      { c with request := c.request.addHeader line (line.idxOf ':'.toUInt8) } := by
  have hlt : line.idxOf ':'.toUInt8 < line.length := List.idxOf_lt_length_of_mem h
  exact if_pos hlt.ne

theorem processHeaderLine_of_not_mem {line : Bytes} (c : HttpContext) (h : ':'.toUInt8 ∉ line) :
    c.processHeaderLine line = { c with state := .kExpectBody } := by
  simp [processHeaderLine, List.idxOf_eq_length h]

/-- In the header section the reader gets to the body if and only if a line has no colon. -/
theorem stops_headers {ls : List Bytes} {xs : Bytes} {r : HttpRequest} {q : HttpContext × Bytes}
    (hls : lines xs = ls) (hstops : headReader.Stops (⟨.kExpectHeaders, r⟩, xs) q) :
    q.1.state ≠ .kExpectRequestLine ∧
      (q.1.state = .kExpectBody ↔ ∃ l ∈ ls, ':'.toUInt8 ∉ l) := by
  induction ls generalizing xs r with
  | nil =>
    cases hline : firstLine xs with
    | none =>
      have hnone : headReader.step ⟨.kExpectHeaders, r⟩ xs = none := by
        simp [headReader, headStep, hline]
      obtain rfl := (Reader.Stops.of_none hnone).unique hstops
      exact ⟨by simp, by simp⟩
    | some p =>
      rw [lines_eq_cons hline] at hls
      cases hls
  | cons l ls ih =>
    cases hline : firstLine xs with
    | none =>
      rw [lines_eq_nil hline] at hls
      cases hls
    | some p =>
      obtain ⟨line, rest⟩ := p
      rw [lines_eq_cons hline] at hls
      obtain ⟨rfl, hrest⟩ := List.cons.inj hls
      have hstep : headReader.step ⟨.kExpectHeaders, r⟩ xs =
          some (processHeaderLine ⟨.kExpectHeaders, r⟩ line, rest) := by
        simp [headReader, headStep, hline]
      have hnext := (Reader.Reads.stops_iff (Relation.ReflTransGen.single hstep)).mp hstops
      by_cases hcolon : ':'.toUInt8 ∈ line
      · rw [processHeaderLine_of_mem _ hcolon] at hnext
        simpa [hcolon] using ih hrest hnext
      · rw [processHeaderLine_of_not_mem _ hcolon] at hnext
        have hbody : headReader.step ⟨.kExpectBody, r⟩ rest = none := by
          simp [headReader, headStep]
        obtain rfl := (Reader.Stops.of_none hbody).unique hnext
        exact ⟨by simp, by simp [hcolon]⟩

/-- A reader that starts anew stops in one of three ways : at the body; for lack of input or at a
line that names no method, and then it is not moved by the pass that ends the call; or at a line
that leaves a method. -/
theorem stops_new_cases {xs : Bytes} {q : HttpContext × Bytes}
    (hstops : headReader.Stops (new, xs) q) :
    (HeadComplete xs ∧ ¬MethodLeft xs ∧ q.1.state = .kExpectBody) ∨
    (¬HeadComplete xs ∧ ¬MethodLeft xs ∧ ∃ ok, q.1.finish q.2 = (ok, q.1, q.2)) ∨
    (¬HeadComplete xs ∧ MethodLeft xs ∧ ∃ r, r.method ≠ .kInvalid ∧
      q.1.finish q.2 = (false, ⟨.kExpectRequestLine, r⟩, xs)) := by
  cases hline : firstLine xs with
  | none =>
    have hnone : headReader.step new xs = none := by simp [headReader, headStep, new, hline]
    obtain rfl := (Reader.Stops.of_none hnone).unique hstops
    refine .inr (.inl ⟨?_, ?_, true, by simp [finish, new, hline]⟩)
    · simp [HeadComplete, lines_eq_nil hline]
    · simp [MethodLeft, lines_eq_nil hline]
  | some p =>
    obtain ⟨line, rest⟩ := p
    rw [headComplete_iff hline, methodLeft_iff hline]
    obtain ⟨ok, r, hr, hok, hmethod, hkept⟩ :=
      processRequestLine_spec (r := HttpRequest.new) rfl line
    cases ok with
    | true =>
      have hrequest : IsRequestLine line := hok.mp rfl
      have hstep : headReader.step new xs = some (⟨.kExpectHeaders, r⟩, rest) := by
        simp [headReader, headStep, new, hline, hr]
      have hnext := (Reader.Reads.stops_iff (Relation.ReflTransGen.single hstep)).mp hstops
      obtain ⟨hne, hbody⟩ := stops_headers rfl hnext
      by_cases hend : ∃ l ∈ lines rest, ':'.toUInt8 ∉ l
      · exact .inl ⟨⟨hrequest, hend⟩, fun h => h.2 hrequest, hbody.mpr hend⟩
      · refine .inr (.inl ⟨fun h => hend h.2, fun h => h.2 hrequest, true, ?_⟩)
        unfold finish
        split
        · next hstate _ => exact absurd hstate hne
        · next hstate => exact absurd (hbody.mp hstate) hend
        · rfl
    | false =>
      have hrefused : ¬IsRequestLine line := fun h => absurd (hok.mpr h) (by simp)
      have hnone : headReader.step new xs = none := by
        simp [headReader, headStep, new, hline, hr]
      have hfinish : new.finish xs = (false, ⟨.kExpectRequestLine, r⟩, xs) := by
        simp [finish, new, hline, hr]
      obtain rfl := (Reader.Stops.of_none hnone).unique hstops
      by_cases hinvalid : r.method = .kInvalid
      · obtain rfl := hkept hinvalid
        exact .inr (.inl ⟨fun h => hrefused h.1, fun h => hmethod.mpr h.1 hinvalid, false, hfinish⟩)
      · exact .inr (.inr ⟨fun h => hrefused h.1, ⟨hmethod.mp hinvalid, hrefused⟩, r, hinvalid,
          hfinish⟩)

end HttpContext

/-! ## Every sequence of chunks -/

namespace HttpConn

variable (httpCallback : HttpRequest → HttpResponse → HttpResponse) {s : HttpConn} {begun : Bytes}

/-- The connection has read what it can of the bytes `begun` that it received since its last
request. -/
structure Reading (s : HttpConn) (begun : Bytes) : Prop where
  resumable : s.context.Resumable
  reads : headReader.Reads (.new, begun) (s.context.untimed, s.input.content)
  methodLeft : ¬MethodLeft begun

/-- The connection has refused its first line, and kept the method of it. -/
structure Stuck (s : HttpConn) (begun : Bytes) : Prop where
  state : s.context.state = .kExpectRequestLine
  method : s.context.request.method ≠ .kInvalid
  input : s.input.content = begun
  methodLeft : MethodLeft begun

def Tracks (s : HttpConn) (begun : Bytes) : Prop :=
  Reading s begun ∨ Stuck s begun

theorem reading_new : Reading .new [] where
  resumable := new_resumable
  reads := by
    rw [HttpConn.new, ValidBuffer.content_new]
    exact Relation.ReflTransGen.refl
  methodLeft := not_methodLeft_nil

/-- A call after which the request is not complete. -/
theorem onMessage_incomplete {receiveTime : Timestamp} {p : Parsed}
    (h : s.context.parseRequest s.input receiveTime = .ok (some p))
    (hgot : p.context.gotAll = false) :
    ∃ s', onMessage httpCallback s receiveTime = .ok (some s') ∧ s'.context = p.context ∧
      s'.input = p.buf := by
  cases hok : p.ok with
  | true => exact ⟨_, onMessage_suspended h hok hgot, rfl, rfl⟩
  | false =>
    refine ⟨{ s with
      context := p.context
      input := p.buf
      calls := s.calls ++ [.send (ascii "HTTP/1.1 400 Bad Request\r\n\r\n"), .shutdown] }, ?_,
      rfl, rfl⟩
    simp [onMessage, h, hok, hgot]

/-- A call that completes the request. -/
theorem reading_of_gotAll {receiveTime : Timestamp} {p : Parsed} {r : HttpRequest}
    (hcall : s.context.parseRequest s.input receiveTime = .ok (some p))
    (hview : view p = (true, ⟨.kGotAll, r⟩, [])) :
    ∃ s', onMessage httpCallback s receiveTime = .ok (some s') ∧ Reading s' [] := by
  obtain ⟨hok, hcontext, hcontent⟩ := view_eq hview
  have hgot : p.context.gotAll = true := decide_eq_true (congrArg HttpContext.state hcontext)
  refine ⟨_, onMessage_gotAll hcall hok hgot, new_resumable, ?_, not_methodLeft_nil⟩
  change headReader.Reads (.new, []) (.new, p.buf.content)
  rw [hcontent]
  exact Relation.ReflTransGen.refl

/-- A call that leaves the reader where it stopped. -/
theorem reading_of_stops {receiveTime : Timestamp} {p : Parsed} {c : HttpContext} {rest : Bytes}
    {ok : Bool} (hcall : s.context.parseRequest s.input receiveTime = .ok (some p))
    (hview : view p = (ok, c, rest)) (hstops : headReader.Stops (.new, begun) (c, rest))
    (hleft : ¬MethodLeft begun) :
    ∃ s', onMessage httpCallback s receiveTime = .ok (some s') ∧ Reading s' begun := by
  have hc : c.Resumable := new_resumable.reads hstops.1
  obtain ⟨-, hcontext, hcontent⟩ := view_eq hview
  rw [← hcontext, resumable_untimed] at hc
  obtain ⟨s', hmessage, hcontext', hinput'⟩ :=
    onMessage_incomplete httpCallback hcall (decide_eq_false hc.notGotAll)
  refine ⟨s', hmessage, ?_, ?_, hleft⟩
  · rw [hcontext']
    exact hc
  · rw [hcontext', hinput', hcontext, hcontent]
    exact hstops.1

/-- A call that refuses the first line and keeps its method. -/
theorem stuck_of_refused {receiveTime : Timestamp} {p : Parsed} {r : HttpRequest}
    (hcall : s.context.parseRequest s.input receiveTime = .ok (some p))
    (hview : view p = (false, ⟨.kExpectRequestLine, r⟩, begun)) (hr : r.method ≠ .kInvalid)
    (hleft : MethodLeft begun) :
    ∃ s', onMessage httpCallback s receiveTime = .ok (some s') ∧ Stuck s' begun := by
  obtain ⟨-, hcontext, hcontent⟩ := view_eq hview
  obtain ⟨hstate, hrequest⟩ := HttpContext.mk.inj hcontext
  have hgot : p.context.gotAll = false := by
    rw [gotAll, show p.context.state = .kExpectRequestLine from hstate]
    rfl
  obtain ⟨s', hmessage, hcontext', hinput'⟩ := onMessage_incomplete httpCallback hcall hgot
  refine ⟨s', hmessage, ?_, ?_, ?_, hleft⟩
  · rw [hcontext']
    exact hstate
  · rw [← hrequest] at hr
    rw [hcontext']
    exact hr
  · rw [hinput']
    exact hcontent

/-- A chunk for a connection that reads. -/
theorem Reading.onMessage (h : Reading s begun) (chunk : Bytes) (receiveTime : Timestamp) :
    ∃ s', HttpConn.onMessage httpCallback { s with input := s.input.append chunk } receiveTime =
        .ok (some s') ∧
      (HeadComplete (begun ++ chunk) → Tracks s' []) ∧
      (¬HeadComplete (begun ++ chunk) → Tracks s' (begun ++ chunk)) := by
  obtain ⟨q, p, hstops, hcall, hview⟩ :=
    h.resumable.parseRequest (s.input.append chunk) receiveTime
  rw [ValidBuffer.content_append, h.reads.stops_append] at hstops
  rcases stops_new_cases hstops with ⟨hhead, -, hstate⟩ | ⟨hhead, hleft, ok, hfinish⟩ |
    ⟨hhead, hleft, r, hr, hfinish⟩
  · have hfinish : q.1.finish q.2 = (true, ⟨.kGotAll, q.1.request.setBody q.2⟩, []) := by
      simp [finish, hstate]
    obtain ⟨s', hmessage, hs'⟩ := reading_of_gotAll httpCallback
      (s := { s with input := s.input.append chunk }) hcall (hview.trans hfinish)
    exact ⟨s', hmessage, fun _ => .inl hs', fun hnot => absurd hhead hnot⟩
  · obtain ⟨s', hmessage, hs'⟩ := reading_of_stops httpCallback
      (s := { s with input := s.input.append chunk }) hcall (hview.trans hfinish) hstops hleft
    exact ⟨s', hmessage, fun hnot => absurd hnot hhead, fun _ => .inl hs'⟩
  · obtain ⟨s', hmessage, hs'⟩ := stuck_of_refused httpCallback
      (s := { s with input := s.input.append chunk }) hcall (hview.trans hfinish) hr hleft
    exact ⟨s', hmessage, fun hnot => absurd hnot hhead, fun _ => .inr hs'⟩

/-- A chunk for a connection that has refused its first line : the line is read again. -/
theorem Stuck.onMessage (h : Stuck s begun) (chunk : Bytes) (receiveTime : Timestamp) :
    HttpConn.onMessage httpCallback { s with input := s.input.append chunk } receiveTime =
      .error .setMethod := by
  obtain ⟨line, rest, hline, hspace⟩ := h.methodLeft.firstLine
  have hline' : firstLine (s.input.append chunk).content = some (line, rest ++ chunk) := by
    rw [ValidBuffer.content_append, h.input]
    exact firstLine_append chunk hline
  have hcall := parseRequest_method_set h.state h.method hline' hspace receiveTime
  unfold HttpConn.onMessage
  rw [hcall]
  rfl

end HttpConn

/-- No chunk comes after a first line that names a method and is not a request line. `begun` are
the bytes received since the last complete request. -/
def QuietAfterRefusal (begun : Bytes) : List Bytes → Prop
  | [] => True
  | chunk :: chunks => ¬MethodLeft begun ∧
      (HeadComplete (begun ++ chunk) → QuietAfterRefusal [] chunks) ∧
      (¬HeadComplete (begun ++ chunk) → QuietAfterRefusal (begun ++ chunk) chunks)

variable (httpCallback : HttpRequest → HttpResponse → HttpResponse)

open HttpConn

/-- Either the chunks are all handled, or the assertion fails. -/
theorem deliver_cases :
    ∀ (chunks : List (Bytes × Timestamp)) {s : HttpConn} {begun : Bytes}, Tracks s begun →
      (QuietAfterRefusal begun (chunks.map Prod.fst) ∧
        ∃ t, deliver httpCallback chunks s = .ok (some t)) ∨
      (¬QuietAfterRefusal begun (chunks.map Prod.fst) ∧
        deliver httpCallback chunks s = .error .setMethod)
  | [], s, begun, _ => .inl ⟨trivial, s, rfl⟩
  | (chunk, receiveTime) :: chunks, s, begun, .inl hreading => by
    obtain ⟨s', hmessage, hcomplete, hincomplete⟩ :=
      hreading.onMessage httpCallback chunk receiveTime
    have hleft := hreading.methodLeft
    rw [deliver_cons chunks hmessage]
    by_cases hhead : HeadComplete (begun ++ chunk)
    · simpa [QuietAfterRefusal, hleft, hhead] using deliver_cases chunks (hcomplete hhead)
    · simpa [QuietAfterRefusal, hleft, hhead] using deliver_cases chunks (hincomplete hhead)
  | (chunk, receiveTime) :: chunks, s, begun, .inr hstuck => by
    refine .inr ⟨fun h => h.1 hstuck.methodLeft, ?_⟩
    rw [deliver, hstuck.onMessage httpCallback chunk receiveTime]
    rfl

/-- For every sequence of chunks on a connection : all calls of `onMessage` return and the
assertion of `setMethod` holds at each of them, if and only if no chunk comes after a first line
that names a method and is not a request line. In all other sequences the assertion fails. -/
theorem setMethod_assert_iff (chunks : List (Bytes × Timestamp)) :
    ((∃ t, deliver httpCallback chunks .new = .ok (some t)) ↔
      QuietAfterRefusal [] (chunks.map Prod.fst)) ∧
    (deliver httpCallback chunks .new ≠ .error .setMethod ↔
      QuietAfterRefusal [] (chunks.map Prod.fst)) := by
  rcases deliver_cases httpCallback chunks (.inl reading_new) with
    ⟨hquiet, t, ht⟩ | ⟨hquiet, herror⟩
  · simp [hquiet, ht]
  · simp [hquiet, herror]

set_option maxRecDepth 20000 in
/-- A request, and then a line with an unknown method, which is refused at each of two calls. -/
theorem setMethod_assert_iff_unknown_method :
    QuietAfterRefusal [] [ascii "GET / HTTP/1.1\r\n\r\n", ascii "FOO / HTTP/1.1\r\n", ascii "x"] :=
  (setMethod_assert_iff (fun _ response => response)
    [(ascii "GET / HTTP/1.1\r\n\r\n", 1), (ascii "FOO / HTTP/1.1\r\n", 2), (ascii "x", 3)]).1.mp
    ⟨_, rfl⟩

set_option maxRecDepth 20000 in
/-- A line with a method and an unknown version is answered with 400. The next byte makes the
parser read the line again, and the assertion fails. -/
theorem setMethod_assert_fails :
    (∃ t, deliver (fun _ response => response) [(ascii "GET / HTTP/2.0\r\n", 1)] .new =
        .ok (some t) ∧
      t.calls = [.send (ascii "HTTP/1.1 400 Bad Request\r\n\r\n"), .shutdown]) ∧
    deliver (fun _ response => response) [(ascii "GET / HTTP/2.0\r\n", 1), (ascii "x", 2)] .new =
      .error .setMethod :=
  ⟨⟨_, rfl, rfl⟩, rfl⟩

end Tmuduo
