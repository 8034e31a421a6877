import Tmuduo.HttpRefused
import Tmuduo.Window

/-!
# The grammar of the request line

`processRequestLine` gets two pointers into the input buffer. `processRequestLineAt` is the
function on these pointers, where a read that is not between them is a `Fault`, and
`processRequestLineAt_eq` says that it is `processRequestLine` on the text between them. It has read
nothing else, whatever the memory around the line holds.

`request_line_grammar` says which lines are accepted and what they leave in the request.
-/

set_option autoImplicit false

namespace Tmuduo

namespace HttpContext

variable (w : Window UInt8)

/-- The path and the query, from `a` up to `space`. -/
def processTargetAt (r : HttpRequest) (a space : ℕ) : Except (Fault HttpAssert) HttpRequest := do
  let question ← w.find a space '?'.toUInt8
  if question ≠ space then
    let path ← w.copy a question
    let query ← w.copy question space
    return (r.setPath path).setQuery query
  else
    let path ← w.copy a space
    return r.setPath path

/-- The version, from `a` up to the end of the line. -/
def processVersionAt (r : HttpRequest) (a : ℕ) :
    Except (Fault HttpAssert) (Bool × HttpRequest) := do
  let succeed ← if w.last - a = 8 then w.equal a (w.last - 1) (ascii "HTTP/1.") else .ok false
  if succeed then
    let c ← w.read (w.last - 1)
    if c = '1'.toUInt8 then return (true, r.setVersion .kHttp1_1)
    else if c = '0'.toUInt8 then return (true, r.setVersion .kHttp1_0)
    else return (false, r)
  else return (false, r)

/-- The target and the version, from the byte after the method on. -/
def processRestAt (r : HttpRequest) (a : ℕ) : Except (Fault HttpAssert) (Bool × HttpRequest) := do
  let space ← w.find a w.last ' '.toUInt8
  if space ≠ w.last then
    let r ← processTargetAt w r a space
    processVersionAt w r (space + 1)
  else return (false, r)

/-- `processRequestLine(start, end)`, where the window is what lies between the two pointers. -/
def processRequestLineAt (r : HttpRequest) : Except (Fault HttpAssert) (Bool × HttpRequest) := do
  let space ← w.find w.first w.last ' '.toUInt8
  if space ≠ w.last then
    let m ← w.copy w.first space
    let (known, r) ← (r.setMethod m).mapError Fault.code
    if known then processRestAt w r (space + 1)
    else return (false, r)
  else return (false, r)

variable {w}

theorem processTargetAt_eq {a space : ℕ} (r : HttpRequest) (ha : w.first ≤ a) (hab : a ≤ space)
    (hb : space ≤ w.last) :
    processTargetAt w r a space = .ok (processTarget r (slice w.mem a space)) := by
  have hlen : (slice w.mem a space).length = space - a :=
    length_slice w.mem (Nat.le_trans hb w.bound)
  have hle : (slice w.mem a space).idxOf '?'.toUInt8 ≤ (slice w.mem a space).length :=
    List.idxOf_le_length
  unfold processTargetAt processTarget
  simp only [Window.find_eq ha hab hb, ok_bind]
  generalize (slice w.mem a space).idxOf '?'.toUInt8 = question at hle ⊢
  by_cases hquestion : question = (slice w.mem a space).length
  · have hend : a + question = space := by omega
    rw [if_neg (not_not.mpr hend), if_neg (not_not.mpr hquestion), Window.copy_eq ha hab hb]
    rfl
  · have hend : a + question ≠ space := by omega
    rw [if_pos hend, if_pos hquestion, Window.copy_eq ha (by omega) (by omega), ok_bind,
      Window.copy_eq (by omega) (by omega) hb, take_slice w.mem (by omega), drop_slice]
    rfl

theorem processVersionAt_eq {a : ℕ} (r : HttpRequest) (ha : w.first ≤ a) (hab : a ≤ w.last) :
    processVersionAt w r a = .ok (processVersion r (slice w.mem a w.last)) := by
  have hlen : (slice w.mem a w.last).length = w.last - a := length_slice w.mem w.bound
  unfold processVersionAt processVersion
  by_cases height : w.last - a = 8
  · have hlast : w.last - 1 + 1 = w.last := by omega
    have hequal : w.equal a (w.last - 1) (ascii "HTTP/1.") =
        (.ok (slice w.mem a (w.last - 1) = ascii "HTTP/1.") : Except (Fault HttpAssert) Bool) :=
      Window.equal_eq ha (by omega) (by omega) (by change 7 = _; omega)
    obtain ⟨c, hread, hslice⟩ :=
      Window.read_eq (w := w) (ε := HttpAssert) (i := w.last - 1) (b := w.last) (by omega)
        (by omega) (Nat.le_refl _)
    have hcut : slice w.mem a w.last = slice w.mem a (w.last - 1) ++ [c] := by
      rw [← slice_append_slice w.mem (show a ≤ w.last - 1 by omega) (Nat.sub_le _ 1), hslice, hlast,
        slice_self]
    rw [hlen, hcut, List.dropLast_concat, List.getLast?_concat]
    simp only [height, hequal, hread, ok_bind, if_true, true_and, Option.some.injEq,
      decide_eq_true_eq]
    split_ifs <;> rfl
  · rw [hlen]
    simp [height]

theorem processRestAt_eq {a : ℕ} (r : HttpRequest) (ha : w.first ≤ a) (hab : a ≤ w.last) :
    processRestAt w r a =
      .ok (let start := slice w.mem a w.last
        let space := start.idxOf ' '.toUInt8
        if space ≠ start.length then
          processVersion (processTarget r (start.take space)) (start.drop (space + 1))
        else (false, r)) := by
  have hlen : (slice w.mem a w.last).length = w.last - a := length_slice w.mem w.bound
  have hle : (slice w.mem a w.last).idxOf ' '.toUInt8 ≤ (slice w.mem a w.last).length :=
    List.idxOf_le_length
  unfold processRestAt
  simp only [Window.find_eq ha hab (Nat.le_refl w.last), ok_bind]
  generalize (slice w.mem a w.last).idxOf ' '.toUInt8 = space at hle ⊢
  by_cases hspace : space = (slice w.mem a w.last).length
  · have hend : a + space = w.last := by omega
    rw [if_neg (not_not.mpr hend), if_neg (not_not.mpr hspace)]
    rfl
  · have hend : a + space ≠ w.last := by omega
    rw [if_pos hend, if_pos hspace, processTargetAt_eq r ha (by omega) (by omega), ok_bind,
      processVersionAt_eq _ (by omega) (by omega), take_slice w.mem (by omega), drop_slice]
    rfl

/-- The function on pointers is the function on the text between them. -/
theorem processRequestLineAt_eq (w : Window UInt8) (r : HttpRequest) :
    processRequestLineAt w r = (processRequestLine r w.text).mapError Fault.code := by
  have hlen : w.text.length = w.last - w.first := length_slice w.mem w.bound
  have hle : w.text.idxOf ' '.toUInt8 ≤ w.text.length := List.idxOf_le_length
  have hwindow := w.le
  unfold processRequestLineAt processRequestLine
  simp only [Window.find_eq (Nat.le_refl w.first) w.le (Nat.le_refl w.last), ok_bind]
  rw [show slice w.mem w.first w.last = w.text from rfl]
  generalize w.text.idxOf ' '.toUInt8 = space at hle ⊢
  by_cases hspace : space = w.text.length
  · have hend : w.first + space = w.last := by omega
    rw [if_neg (not_not.mpr hend), if_neg (not_not.mpr hspace)]
    rfl
  · have hend : w.first + space ≠ w.last := by omega
    have htake : w.text.take space = slice w.mem w.first (w.first + space) :=
      take_slice w.mem (by omega)
    have hdrop : w.text.drop (space + 1) = slice w.mem (w.first + space + 1) w.last :=
      drop_slice w.mem w.first w.last (space + 1)
    rw [if_pos hend, if_pos hspace, Window.copy_eq (Nat.le_refl _) (by omega) (by omega), ok_bind,
      htake, hdrop]
    cases r.setMethod (slice w.mem w.first (w.first + space)) with
    | error e => rfl
    | ok p =>
      obtain ⟨known, r⟩ := p
      cases known with
      | false => rfl
      | true =>
        simp only [Except.mapError, ok_bind, if_true]
        rw [processRestAt_eq r (by omega) (by omega)]
        simp only
        split_ifs <;> rfl

/-! ## What is accepted, and what is stored -/

/-- The line is the method, the target and `HTTP/1.` with the digit, with one space between
them. -/
structure Spells (line : Bytes) (method : Method) (target : Bytes) (digit : UInt8) : Prop where
  method_valid : method ≠ .kInvalid
  target_valid : ' '.toUInt8 ∉ target
  digit_valid : digit = '0'.toUInt8 ∨ digit = '1'.toUInt8
  line_eq : line = method.toBytes ++ ' '.toUInt8 ::
    (target ++ ' '.toUInt8 :: (ascii "HTTP/1." ++ [digit]))

/-- The version of a digit. -/
def versionOf (digit : UInt8) : Version :=
  if digit = '1'.toUInt8 then .kHttp1_1 else .kHttp1_0

theorem isRequestLine_iff_spells (line : Bytes) :
    IsRequestLine line ↔ ∃ method target digit, Spells line method target digit := by
  constructor
  · rintro ⟨method, hmethod, target, version, htarget, rfl | rfl, hline⟩
    · exact ⟨method, target, '0'.toUInt8, hmethod, htarget, .inl rfl, hline⟩
    · exact ⟨method, target, '1'.toUInt8, hmethod, htarget, .inr rfl, hline⟩
  · rintro ⟨method, target, digit, hmethod, htarget, rfl | rfl, hline⟩
    · exact ⟨method, hmethod, target, _, htarget, .inl rfl, hline⟩
    · exact ⟨method, hmethod, target, _, htarget, .inr rfl, hline⟩

theorem processVersion_digit (r : HttpRequest) {digit : UInt8}
    (h : digit = '0'.toUInt8 ∨ digit = '1'.toUInt8) :
    processVersion r (ascii "HTTP/1." ++ [digit]) = (true, r.setVersion (versionOf digit)) := by
  rcases h with rfl | rfl <;> rfl

/-- The two parts of a target. -/
theorem processTarget_parts {r : HttpRequest} (hquery : r.query = []) (target : Bytes) :
    (processTarget r target).path ++ (processTarget r target).query = target ∧
      '?'.toUInt8 ∉ (processTarget r target).path ∧
      ((processTarget r target).query = [] ∨
        (processTarget r target).query.head? = some '?'.toUInt8) := by
  by_cases hmem : '?'.toUInt8 ∈ target
  · obtain ⟨path, rest, rfl, hpath⟩ := List.eq_append_cons_of_mem hmem
    have hparts : processTarget r (path ++ '?'.toUInt8 :: rest) =
        (r.setPath path).setQuery ('?'.toUInt8 :: rest) := by
      simp [processTarget, idxOf_append_cons hpath]
    rw [hparts]
    exact ⟨rfl, hpath, .inr rfl⟩
  · have hparts : processTarget r target = r.setPath target := by
      simp [processTarget, List.idxOf_eq_length hmem]
    rw [hparts]
    exact ⟨by simp [HttpRequest.setPath, hquery], hmem, .inl hquery⟩

/-- For every line, wherever it lies in a memory, and a request without a method and a query :
nothing outside the line is read; the line is accepted if and only if it is a method, a target
without a space and a version; and then these are stored, with the target cut before its first
question mark. -/
theorem request_line_grammar {r : HttpRequest} (hmethod : r.method = .kInvalid)
    (hquery : r.query = []) (w : Window UInt8) :
    ∃ ok r', processRequestLineAt w r = .ok (ok, r') ∧
      (ok = true ↔ ∃ method target digit, Spells w.text method target digit) ∧
      ∀ method target digit, Spells w.text method target digit →
        r'.method = method ∧ r'.version = versionOf digit ∧ r'.path ++ r'.query = target ∧
        '?'.toUInt8 ∉ r'.path ∧ (r'.query = [] ∨ r'.query.head? = some '?'.toUInt8) := by
  obtain ⟨ok, r', hline, hok, -, -⟩ := processRequestLine_spec hmethod w.text
  refine ⟨ok, r', ?_, ?_, ?_⟩
  · rw [processRequestLineAt_eq, hline]
    rfl
  · rw [hok, isRequestLine_iff_spells]
  · rintro method target digit ⟨hvalid, htarget, hdigit, htext⟩
    have hknown : Method.ofBytes method.toBytes = method := Method.ofBytes_toBytes method hvalid
    rw [htext, processRequestLine_words hmethod (space_not_mem_toBytes method) htarget
      (by rwa [hknown]), processVersion_digit _ hdigit, hknown] at hline
    obtain ⟨-, rfl⟩ := Prod.mk.inj (Except.ok.inj hline)
    obtain ⟨htext, hpath, hstart⟩ :=
      processTarget_parts (r := { r with method := method }) hquery target
    refine ⟨?_, rfl, htext, hpath, hstart⟩
    exact processTarget_method { r with method := method } target

/-- A line in the middle of a buffer, with two question marks. -/
theorem request_line_grammar_in_buffer :
    ∃ ok r', processRequestLineAt ⟨ascii "xxGET /a?b?c HTTP/1.0\r\nxx", 2, 21, by decide, by decide⟩
        .new = .ok (ok, r') ∧ ok = true ∧ r'.path ++ r'.query = ascii "/a?b?c" := by
  obtain ⟨ok, r', hcall, hok, hstored⟩ := request_line_grammar (r := .new) rfl rfl
    ⟨ascii "xxGET /a?b?c HTTP/1.0\r\nxx", 2, 21, by decide, by decide⟩
  have hspells : Spells (ascii "GET /a?b?c HTTP/1.0") .kGet (ascii "/a?b?c") '0'.toUInt8 :=
    ⟨by decide, by decide, .inl rfl, rfl⟩
  exact ⟨ok, r', hcall, hok.mpr ⟨_, _, _, hspells⟩, (hstored _ _ _ hspells).2.2.1⟩

end HttpContext

end Tmuduo
