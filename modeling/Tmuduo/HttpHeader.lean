import Tmuduo.HttpFraming

/-!
# Header lines

`HeaderLine` is a header line as it may be written : a name, a colon, and a value with blanks around
it. The loop of `addHeader` after the colon is meant to skip the blanks before the value; it runs
while the byte is not a space. So what is stored starts with a space or is empty
(`head_fieldValue`), and is the value only if that is empty (`header_value_iff`).
-/

set_option autoImplicit false

namespace Tmuduo

/-- A header line. No CRLF is in its value, and the value neither starts nor ends with a space. -/
structure HeaderLine where
  name : Bytes
  before : Bytes
  value : Bytes
  after : Bytes
  name_ne : name ≠ []
  name_valid : Avoids name ":\r\n"
  before_blank : ∀ c ∈ before, c ∈ ascii " \t"
  after_blank : ∀ c ∈ after, c ∈ ascii " \t"
  value_line : ¬Buffer.kCRLF <:+: value
  value_head : ∀ c ∈ value.head?, isspace c = false
  value_last : ∀ c ∈ value.getLast?, isspace c = false

/-! ## The stored value -/

theorem isspace_of_blank {c : UInt8} (h : c ∈ ascii " \t") : isspace c = true := by
  have hall : (ascii " \t").all isspace = true := by decide
  exact List.all_eq_true.mp hall c h

/-- What `addHeader` stores, of the bytes after the colon. -/
def fieldValue (bs : Bytes) : Bytes :=
  (bs.dropWhile fun c => !isspace c).rdropWhile isspace

theorem head_fieldValue {bs : Bytes} {c : UInt8} (h : c ∈ (fieldValue bs).head?) :
    isspace c = true := by
  obtain ⟨rest, hrest⟩ := List.head?_eq_some_iff.mp (Option.mem_def.mp h)
  obtain ⟨suffix, hsuffix⟩ : fieldValue bs <+: bs.dropWhile fun c => !isspace c :=
    List.rdropWhile_prefix _ _
  have hhead := List.head?_dropWhile_not (fun c => !isspace c) bs
  rw [← hsuffix, hrest] at hhead
  simpa using hhead

theorem fieldValue_of_blank {bs : Bytes} (h : ∀ c ∈ bs, isspace c = true) : fieldValue bs = [] := by
  refine List.rdropWhile_eq_nil_iff.mpr fun c hc => h c ?_
  exact (List.dropWhile_sublist _).subset hc

namespace HeaderLine

variable (h : HeaderLine)

def text : Bytes :=
  h.name ++ ':'.toUInt8 :: (h.before ++ (h.value ++ h.after))

theorem fieldValue_eq_iff :
    fieldValue (h.before ++ (h.value ++ h.after)) = h.value ↔ h.value = [] := by
  constructor
  · intro heq
    cases hvalue : h.value with
    | nil => rfl
    | cons c rest =>
      have hfirst : c ∈ (fieldValue (h.before ++ (h.value ++ h.after))).head? := by
        rw [heq, hvalue]
        rfl
      have hspace := head_fieldValue hfirst
      have hnot := h.value_head c (by rw [hvalue]; rfl)
      exact absurd (hspace.symm.trans hnot) (by decide)
  · intro hvalue
    rw [hvalue, List.nil_append]
    refine fieldValue_of_blank fun c hc => isspace_of_blank ?_
    rcases List.mem_append.mp hc with hc | hc
    · exact h.before_blank c hc
    · exact h.after_blank c hc

/-! ## Reading the line -/

open HttpContext

theorem cr_not_mem_of_blank {bs : Bytes} (hbs : ∀ c ∈ bs, c ∈ ascii " \t") : '\r'.toUInt8 ∉ bs :=
  fun hmem => absurd (hbs _ hmem) (by decide)

/-- The line ends at the first CRLF. -/
theorem firstLine_text (rest : Bytes) :
    firstLine (h.text ++ (Buffer.kCRLF ++ rest)) = some (h.text, rest) := by
  have hname : '\r'.toUInt8 ∉ h.name ++ ':'.toUInt8 :: h.before :=
    HttpMessage.not_mem_append_cons (fun hmem => h.name_valid _ hmem (by decide)) (by decide)
      (cr_not_mem_of_blank h.before_blank)
  have hafter := cr_not_mem_of_blank h.after_blank
  have hhead : (h.after ++ (Buffer.kCRLF ++ rest)).head? ≠ some '\n'.toUInt8 := by
    cases hcases : h.after with
    | nil => exact (by decide : some '\r'.toUInt8 ≠ some '\n'.toUInt8)
    | cons c bs =>
      intro heq
      have hblank := h.after_blank c (by rw [hcases]; exact List.mem_cons_self)
      rw [List.cons_append, List.head?_cons, Option.some.injEq] at heq
      rw [heq] at hblank
      exact absurd hblank (by decide)
  have htext : h.text ++ (Buffer.kCRLF ++ rest) =
      (h.name ++ ':'.toUInt8 :: h.before) ++ (h.value ++ (h.after ++ (Buffer.kCRLF ++ rest))) := by
    simp [text]
  have hcrlf : search ['\r'.toUInt8, '\n'.toUInt8] (Buffer.kCRLF ++ rest) = some 0 :=
    if_pos (List.prefix_append _ _)
  have hvalue : ¬['\r'.toUInt8, '\n'.toUInt8] <:+: h.value := h.value_line
  have hsearch : search ['\r'.toUInt8, '\n'.toUInt8] (h.text ++ (Buffer.kCRLF ++ rest)) =
      some h.text.length := by
    rw [htext, search_append_of_not_mem _ _ hname, search_append_of_not_infix hhead hvalue,
      search_append_of_not_mem _ _ hafter, hcrlf]
    simp [text]
    omega
  exact firstLine_of_search hsearch

theorem idxOf_text : h.text.idxOf ':'.toUInt8 = h.name.length :=
  idxOf_append_cons (fun hmem => h.name_valid _ hmem (by decide)) _

/-- The request after the line. -/
def store (r : HttpRequest) : HttpRequest :=
  { r with headers := r.headers.insert h.name (fieldValue (h.before ++ (h.value ++ h.after))) }

theorem addHeader_text (r : HttpRequest) : r.addHeader h.text h.name.length = h.store r := by
  have hname : h.text.take h.name.length = h.name := List.take_left
  have hdrop : h.text.drop (h.name.length + 1) = h.before ++ (h.value ++ h.after) := by
    rw [← List.drop_drop, text, List.drop_left, List.drop_one, List.tail_cons]
  rw [HttpRequest.addHeader, hname, hdrop]
  rfl

theorem processHeaderLine_text (c : HttpContext) :
    c.processHeaderLine h.text = { c with request := h.store c.request } := by
  have hne : h.name.length ≠ h.text.length := by simp [text]
  simp only [processHeaderLine, h.idxOf_text, if_pos hne, h.addHeader_text]

/-- The line is read as it should be : its name has its value, and the other names have what they
had before. -/
def ReadFrom (r r' : HttpRequest) : Prop :=
  r'.getHeader h.name = h.value ∧ ∀ name, name ≠ h.name → r'.getHeader name = r.getHeader name

theorem readFrom_store_iff (r : HttpRequest) : h.ReadFrom r (h.store r) ↔ h.value = [] := by
  have hself : (h.store r).getHeader h.name = fieldValue (h.before ++ (h.value ++ h.after)) := by
    simp [HttpRequest.getHeader, store]
  have hothers : ∀ name, name ≠ h.name → (h.store r).getHeader name = r.getHeader name := by
    intro name hne
    simp [HttpRequest.getHeader, store, Finmap.lookup_insert_of_ne _ hne]
  rw [ReadFrom, and_iff_left hothers, hself, h.fieldValue_eq_iff]

end HeaderLine

open HttpContext

/-- Where a header line comes next, `parseRequest` reads it and goes on with what follows. The
header then has its value, and all others what they had, if and only if the value is empty. -/
theorem header_value_iff (h : HeaderLine) {c : HttpContext} {buf : ValidBuffer} {rest : Bytes}
    (hstate : c.state = .kExpectHeaders)
    (hbuf : buf.content = h.text ++ (Buffer.kCRLF ++ rest)) (receiveTime : Timestamp) :
    ∃ r buf', c.parseRequest buf receiveTime =
        HttpContext.parseRequest ⟨.kExpectHeaders, r⟩ buf' receiveTime ∧
      buf'.content = rest ∧ (h.ReadFrom c.request r ↔ h.value = []) := by
  have hline := h.firstLine_text rest
  rw [← hbuf] at hline
  obtain ⟨crlf, buf', hcrlf, htake, hbuf', hrest⟩ := findCRLF_of_firstLine hline
  have hpass : c.iterate buf receiveTime true =
      .ok ⟨true, true, ⟨.kExpectHeaders, h.store c.request⟩, buf'⟩ := by
    simp [iterate, hstate, hcrlf, htake, hbuf', Except.mapError, h.processHeaderLine_text]
  refine ⟨h.store c.request, buf', ?_, hrest, h.readFrom_store_iff c.request⟩
  refine parseRequest_of_iterate hpass ⟨by simp, by simp⟩ ?_
  rw [hrest]
  exact firstLine_length hline

/-- `Accept-Encoding: ` with no value. -/
def acceptEncoding : HeaderLine where
  name := ascii "Accept-Encoding"
  before := ascii " "
  value := []
  after := []
  name_ne := by decide
  name_valid := by decide
  before_blank := by simp [ascii]
  after_blank := nofun
  value_line := by decide
  value_head := nofun
  value_last := nofun

theorem header_value_iff_empty : ∃ r buf',
    HttpContext.parseRequest ⟨.kExpectHeaders, .new⟩
        (ValidBuffer.new.append (ascii "Accept-Encoding: \r\n\r\n")) 1 =
      HttpContext.parseRequest ⟨.kExpectHeaders, r⟩ buf' 1 ∧
    buf'.content = ascii "\r\n" ∧ r.getHeader (ascii "Accept-Encoding") = [] := by
  have hcontent : (ValidBuffer.new.append (ascii "Accept-Encoding: \r\n\r\n")).content =
      acceptEncoding.text ++ (Buffer.kCRLF ++ ascii "\r\n") := by
    rw [ValidBuffer.content_append, ValidBuffer.content_new]
    rfl
  obtain ⟨r, buf', hcall, hrest, hiff⟩ := header_value_iff acceptEncoding
    (c := ⟨.kExpectHeaders, .new⟩) rfl hcontent 1
  exact ⟨r, buf', hcall, hrest, (hiff.mpr rfl).1⟩

/-- `Connection: close`. -/
def connectionClose : HeaderLine where
  name := ascii "Connection"
  before := ascii " "
  value := ascii "close"
  after := []
  name_ne := by decide
  name_valid := by decide
  before_blank := by simp [ascii]
  after_blank := nofun
  value_line := by decide
  value_head := by rintro _ ⟨⟩; decide
  value_last := by rintro _ ⟨⟩; decide

set_option maxRecDepth 20000 in
/-- The value of `Connection: close` is stored with the space before it, and the server answers
the request and does not close the connection. -/
theorem header_value_with_space : ∃ t req,
    connectionClose.text = ascii "Connection: close" ∧
    HttpConn.deliver (fun _ response => response)
      [(ascii "GET / HTTP/1.1\r\n" ++ (connectionClose.text ++ ascii "\r\n\r\n"), 1)] .new =
        .ok (some t) ∧
    t.requests = [req] ∧ req.getHeader connectionClose.name = ascii " close" ∧
    req.getHeader connectionClose.name ≠ connectionClose.value ∧ .shutdown ∉ t.calls :=
  ⟨_, _, rfl, rfl, rfl, rfl, by decide, by decide⟩

end Tmuduo
