import Mathlib.Algebra.Ring.Int.Defs
import Mathlib.Data.List.TakeWhile
import Tmuduo.AsyncLogging
import Tmuduo.LogConvert
import Tmuduo.Segment

/-!
# The log stream

`Storage` is `detail::FixedBuffer` with its array, and `LogBuffer` the one of a `LogStream`. Strings
are copied to the cursor when more room is left than they need. A number is converted in place when
`kMaxNumericSize` bytes are left. A read or a write outside of an array is an `Overrun`.

`FixedBuffer` of the asynchronous log is a `Storage` without its array (`append_fixedBuffer`).
`LogCall` is what a program may do with a stream. `logStream_refines` says that each call appends
its whole text or nothing, and `insertions_all_or_nothing` says so of every sequence of calls.
-/

set_option autoImplicit false

namespace Tmuduo

def kSmallBuffer : ℕ := 4000

/-- An access outside of an array. -/
inductive Overrun
  | memcpy
  | number
  deriving DecidableEq, Repr

/-- The conversion of an `int` to `size_t`. -/
def toSize (x : ℤ) : ℕ := (x % 2 ^ 64).toNat

theorem toSize_of_nonneg {x : ℤ} (h : 0 ≤ x) (hx : x < 2 ^ 64) : toSize x = x.toNat := by
  rw [toSize, Int.emod_eq_of_lt h hx]

/-- A negative length is a huge one. -/
theorem le_toSize_of_neg {x : ℤ} (h : x < 0) (hx : -2 ^ 63 ≤ x) : 2 ^ 63 ≤ toSize x := by
  unfold toSize
  omega

def memcpy (dst : Bytes) (p : ℕ) (src : Bytes) (len : ℕ) : Except Overrun Bytes :=
  if len ≤ src.length ∧ p + len ≤ dst.length then .ok (splice dst p (src.take len))
  else .error .memcpy

/-! ## The buffer -/

/-- `detail::FixedBuffer<SIZE>`. `cur` is `cur_ - data_`. -/
structure Storage (SIZE : ℕ) where
  data : Bytes
  cur : ℕ
  deriving DecidableEq, Repr

namespace Storage

variable {SIZE : ℕ}

/-- The constructor, which does not touch the array. -/
def new (data : Bytes) : Storage SIZE := ⟨data, 0⟩

variable (b : Storage SIZE)

def avail : ℤ := SIZE - b.cur

def append (buf : Bytes) (len : ℕ) : Except Overrun (Storage SIZE) :=
  if toSize b.avail > len then do
    let data ← memcpy b.data b.cur buf len
    return ⟨data, b.cur + len⟩
  else return b

def add (len : ℕ) : Storage SIZE := { b with cur := b.cur + len }

def reset : Storage SIZE := { b with cur := 0 }

/-- `toStringView`. -/
def content : Bytes := b.data.take b.cur

/-- A function that writes at `current()`, and `add` of the length that it returns. -/
def atCurrent (f : Bytes → Option (Bytes × ℕ)) : Except Overrun (Storage SIZE) :=
  match f (b.data.drop b.cur) with
  | some (buf, len) => .ok (add { b with data := b.data.take b.cur ++ buf } len)
  | none => .error .number

/-- The cursor is inside the array, or at its end. -/
structure Valid : Prop where
  length_data : b.data.length = SIZE
  cur_le : b.cur ≤ SIZE

theorem new_valid {data : Bytes} (h : data.length = SIZE) : (new data : Storage SIZE).Valid :=
  ⟨h, Nat.zero_le _⟩

@[simp] theorem content_new (data : Bytes) : (new data : Storage SIZE).content = [] :=
  List.take_zero

variable {b} (h : b.Valid)

include h

theorem Valid.length_content : b.content.length = b.cur := by
  rw [content, List.length_take, h.length_data]
  exact Nat.min_eq_left h.cur_le

theorem Valid.reset : b.reset.Valid :=
  ⟨h.length_data, Nat.zero_le _⟩

/-- `append` leaves out what does not fit with a byte to spare. -/
theorem Valid.append (hsize : SIZE < 2 ^ 63) {buf : Bytes} {len : ℕ}
    (hlen : len ≤ buf.length ∨ SIZE ≤ len) :
    ∃ b', b.append buf len = .ok b' ∧ b'.Valid ∧
      b'.content = if len < SIZE - b.content.length then b.content ++ buf.take len
        else b.content := by
  have hcur := h.cur_le
  have hdata := h.length_data
  have havail : toSize b.avail = SIZE - b.cur := by
    unfold avail
    rw [toSize_of_nonneg (by omega) (by omega)]
    omega
  unfold Storage.append
  rw [havail, h.length_content]
  split_ifs with hfit
  · have hin : len ≤ buf.length ∧ b.cur + len ≤ b.data.length := by omega
    have htake : (buf.take len).length = len := by
      rw [List.length_take]
      omega
    have hfits : b.cur + (buf.take len).length ≤ b.data.length := by
      rw [htake]
      exact hin.2
    refine ⟨_, by rw [memcpy, if_pos hin]; rfl, ⟨?_, ?_⟩, ?_⟩
    · rw [length_splice _ hfits, hdata]
    · simp only
      omega
    · have hstart : (b.data.take b.cur ++ buf.take len).length = b.cur + len := by
        rw [List.length_append, List.length_take, htake]
        omega
      exact List.take_left' hstart
  · exact ⟨b, rfl, h, rfl⟩

/-- A text with a terminating zero is written at the cursor. -/
theorem Valid.atCurrent {f : Bytes → Option (Bytes × ℕ)} {text : Bytes}
    (hf : f (b.data.drop b.cur) =
      some (text ++ 0 :: (b.data.drop b.cur).drop (text.length + 1), text.length))
    (hlen : text.length < SIZE - b.cur) :
    ∃ b', b.atCurrent f = .ok b' ∧ b'.Valid ∧ b'.content = b.content ++ text := by
  have hcur := h.cur_le
  have hdata := h.length_data
  refine ⟨_, by rw [Storage.atCurrent, hf], ⟨?_, ?_⟩, ?_⟩
  · simp [add, List.length_take, hdata]
    omega
  · simp only [add]
    omega
  · have hstart : (b.data.take b.cur ++ text).length = b.cur + text.length := by
      rw [List.length_append, List.length_take]
      omega
    simp only [content, add]
    rw [← List.append_assoc, List.take_left' hstart]

/-- The buffer of the asynchronous log is this one without its array. -/
theorem Valid.append_fixedBuffer (hsize : SIZE < 2 ^ 63) {f : FixedBuffer SIZE}
    (hsame : f.bytes = b.content) (buf : Bytes) :
    ∃ b', b.append buf buf.length = .ok b' ∧ b'.Valid ∧ (f.append buf).bytes = b'.content := by
  obtain ⟨b', hcall, hv, hcontent⟩ := h.append hsize (Or.inl (Nat.le_refl buf.length))
  refine ⟨b', hcall, hv, ?_⟩
  have hroom : f.avail > buf.length ↔ buf.length < SIZE - b.content.length := by
    rw [FixedBuffer.avail, hsame]
  rw [hcontent, List.take_length, FixedBuffer.append]
  by_cases hfit : buf.length < SIZE - b.content.length
  · rw [dif_pos (hroom.mpr hfit), if_pos hfit]
    exact congrArg (· ++ buf) hsame
  · rw [dif_neg (mt hroom.mp hfit), if_neg hfit, hsame]

end Storage

/-! ## The stream -/

/-- `LogStream::LogBuffer`, all that a `LogStream` holds. -/
abbrev LogBuffer := Storage kSmallBuffer

/-- `strlen` of a string that a zero follows. -/
def strlen (str : Bytes) : ℕ := (str.takeWhile (· ≠ 0)).length

theorem strlen_le (str : Bytes) : strlen str ≤ str.length :=
  (List.takeWhile_prefix _).length_le

theorem strlen_of_not_mem {str : Bytes} (h : 0 ∉ str) : strlen str = str.length := by
  have hall : str.takeWhile (· ≠ 0) = str := by
    refine List.takeWhile_eq_self_iff.mpr fun c hc => ?_
    refine decide_eq_true fun hzero => ?_
    subst hzero
    exact h hc
  rw [strlen, hall]

/-- The calls on a `LogStream`. A string of C is what its pointer points to, before the zero at its
end, or `nullptr`. -/
inductive LogCall
  | bool (v : Bool)
  | char (v : UInt8)
  | integer (v : LogStream.Integer)
  | pointer (p : BitVec 64)
  | cstring (str : Option Bytes)
  | string (v : Bytes)
  | buffer (v : LogBuffer)
  | append (data : Bytes) (len : BitVec 32)
  | resetBuffer
  deriving DecidableEq, Repr

namespace LogStream

/-- The body of `operator<<(const void*)`, at the array from `current()` on. -/
def convertPointer (buf : Bytes) (v : BitVec 64) : Option (Bytes × ℕ) := do
  let buf ← put buf 0 '0'.toUInt8
  let buf ← put buf 1 'x'.toUInt8
  let (tail, len) ← convertHex (buf.drop 2) v
  return (buf.take 2 ++ tail, len + 2)

variable (s : LogBuffer)

/-- `formatInteger` and `operator<<(const void*)` : `convert` is called when there is room for any
number. -/
def formatNumber (convert : Bytes → Option (Bytes × ℕ)) : Except Overrun LogBuffer :=
  if s.avail ≥ kMaxNumericSize then s.atCurrent convert else return s

def formatInteger (v : ℤ) : Except Overrun LogBuffer := formatNumber s (convert · v)

end LogStream

namespace LogCall

open LogStream

/-- What the call does to the stream. -/
def exec (s : LogBuffer) : LogCall → Except Overrun LogBuffer
  | bool v => s.append (if v then ascii "1" else ascii "0") 1
  | char v => s.append [v] 1
  | integer v => formatInteger s v.argument
  | pointer p => formatNumber s (convertPointer · p)
  | cstring (some str) => s.append str (strlen str)
  | cstring none => s.append (ascii "(null)") 6
  | string v => s.append v v.length
  | buffer v => s.append v.content v.content.length
  | append data len => s.append data (toSize len.toInt)
  | resetBuffer => .ok s.reset

/-- `append` is given a pointer to as many bytes as it is told. -/
def Pre : LogCall → Prop
  | append data len => len.toInt ≤ data.length
  | _ => True

/-- The text of an insertion. -/
def text : LogCall → Bytes
  | bool v => if v then ascii "1" else ascii "0"
  | char v => [v]
  | integer v => integerText v.value
  | pointer p => ascii "0x" ++ hexText p.toNat
  | cstring (some str) => str.takeWhile (· ≠ 0)
  | cstring none => ascii "(null)"
  | string v => v
  | buffer v => v.content
  | append data len => data.take len.toInt.toNat
  | resetBuffer => []

/-- The insertion is accepted when `room` bytes are left. -/
def Accepted (room : ℕ) : LogCall → Prop
  | integer _ => kMaxNumericSize ≤ room
  | pointer _ => kMaxNumericSize ≤ room
  | append _ len => 0 ≤ len.toInt ∧ len.toInt.toNat < room
  | call => call.text.length < room

instance (room : ℕ) (call : LogCall) : Decidable (call.Accepted room) :=
  match call with
  | integer _ => inferInstanceAs (Decidable (_ ≤ _))
  | pointer _ => inferInstanceAs (Decidable (_ ≤ _))
  | append _ _ => inferInstanceAs (Decidable (_ ∧ _))
  | bool _ | char _ | cstring _ | string _ | buffer _ | resetBuffer =>
    inferInstanceAs (Decidable (_ < _))

/-- What the call does to the content. -/
def insert (content : Bytes) (call : LogCall) : Bytes :=
  if call = resetBuffer then []
  else if call.Accepted (kSmallBuffer - content.length) then content ++ call.text
  else content

theorem insert_of_ne {call : LogCall} (h : call ≠ resetBuffer) (content : Bytes) :
    insert content call =
      if call.Accepted (kSmallBuffer - content.length) then content ++ call.text else content :=
  if_neg h

end LogCall

/-! ## One call -/

namespace LogStream

open LogCall

variable {s : LogBuffer} (h : s.Valid)

include h

/-- The room that is left, counted from the content. -/
theorem avail_eq : s.avail = (kSmallBuffer - s.content.length : ℕ) := by
  have hcur := h.cur_le
  rw [h.length_content, Storage.avail]
  omega

theorem formatNumber_spec {f : Bytes → Option (Bytes × ℕ)} {text : Bytes}
    (hlen : text.length < kMaxNumericSize)
    (hf : ∀ buf : Bytes, kMaxNumericSize ≤ buf.length →
      f buf = some (text ++ 0 :: buf.drop (text.length + 1), text.length)) :
    ∃ s', formatNumber s f = .ok s' ∧ s'.Valid ∧
      s'.content = if kMaxNumericSize ≤ kSmallBuffer - s.content.length then s.content ++ text
        else s.content := by
  have havail := avail_eq h
  have hcur := h.length_content
  unfold formatNumber
  by_cases hroom : kMaxNumericSize ≤ kSmallBuffer - s.content.length
  · have harray : kMaxNumericSize ≤ (s.data.drop s.cur).length := by
      rw [List.length_drop, h.length_data]
      omega
    obtain ⟨s', hcall, hv, hcontent⟩ := h.atCurrent (hf _ harray) (by omega)
    rw [if_pos (by omega), if_pos hroom]
    exact ⟨s', hcall, hv, hcontent⟩
  · rw [if_neg (by omega), if_neg hroom]
    exact ⟨s, rfl, h, rfl⟩

/-- An insertion of a whole string. -/
theorem append_spec {buf : Bytes} {len : ℕ} (hlen : len ≤ buf.length) :
    ∃ s', s.append buf len = .ok s' ∧ s'.Valid ∧
      s'.content = if (buf.take len).length < kSmallBuffer - s.content.length
        then s.content ++ buf.take len else s.content := by
  rw [List.length_take, Nat.min_eq_left hlen]
  exact h.append (by decide) (Or.inl hlen)

omit h

theorem convertPointer_eq {v : BitVec 64} {buf : Bytes} (hbuf : kMaxNumericSize ≤ buf.length) :
    convertPointer buf v = some ((pointer v).text ++ 0 :: buf.drop ((pointer v).text.length + 1),
      (pointer v).text.length) := by
  have hhex := length_hexText_le v
  obtain ⟨x, y, rest, rfl⟩ : ∃ x y rest, buf = x :: y :: rest := by
    match buf, hbuf with
    | x :: y :: rest, _ => exact ⟨x, y, rest, rfl⟩
  have hroom : (hexText v.toNat).length < rest.length := by
    simp only [List.length_cons, kMaxNumericSize] at hbuf
    omega
  have hzero : ascii "0x" = ['0'.toUInt8, 'x'.toUInt8] := rfl
  simp [convertPointer, put, convertHex_eq hroom, LogCall.text, hzero]

end LogStream

namespace LogCall

open LogStream

variable {s : LogBuffer}

/-- The call on a valid buffer appends its whole text or nothing. -/
theorem exec_spec (h : s.Valid) (call : LogCall) (hpre : call.Pre) :
    ∃ s', call.exec s = .ok s' ∧ s'.Valid ∧ s'.content = insert s.content call := by
  cases call with
  | bool v => cases v <;> exact append_spec h (Nat.le_refl 1)
  | char v => exact append_spec h (Nat.le_refl 1)
  | integer v =>
    have hlen := length_integerText_le v.natAbs_value_lt
    refine formatNumber_spec h ?_ fun buf hbuf => ?_
    · exact Nat.lt_of_le_of_lt hlen (by decide)
    · rw [v.argument_eq]
      exact convert_eq (Nat.lt_of_le_of_lt hlen (Nat.lt_of_lt_of_le (by decide) hbuf))
  | pointer p =>
    have hlen : (pointer p).text.length < kMaxNumericSize := by
      have hhex := length_hexText_le p
      have htwo : (ascii "0x").length = 2 := rfl
      rw [text, List.length_append, htwo, kMaxNumericSize]
      omega
    exact formatNumber_spec h hlen fun buf hbuf => convertPointer_eq hbuf
  | cstring str =>
    cases str with
    | none => exact append_spec h (Nat.le_refl 6)
    | some str =>
      have hstart : str.takeWhile (· ≠ 0) <+: str := List.takeWhile_prefix _
      have hcall := append_spec h hstart.length_le
      rw [← List.prefix_iff_eq_take.mp hstart] at hcall
      exact hcall
  | string v =>
    have hcall := append_spec h (Nat.le_refl v.length)
    rw [List.take_length] at hcall
    exact hcall
  | buffer v =>
    have hcall := append_spec h (Nat.le_refl v.content.length)
    rw [List.take_length] at hcall
    exact hcall
  | append data len =>
    have hsize := len.two_mul_toInt_lt
    have hneg := len.le_two_mul_toInt
    by_cases hlen : 0 ≤ len.toInt
    · have hdata : len.toInt.toNat ≤ data.length := by
        have := show len.toInt ≤ data.length from hpre
        omega
      obtain ⟨s', hcall, hv, hcontent⟩ := h.append (by decide) (Or.inl hdata)
      refine ⟨s', ?_, hv, hcontent.trans ?_⟩
      · rw [exec, toSize_of_nonneg hlen (by omega), hcall]
      · rw [insert_of_ne (by simp)]
        exact if_congr (and_iff_right hlen).symm rfl rfl
    · -- The length is a huge `size_t`.
      have hhuge : kSmallBuffer ≤ toSize len.toInt :=
        Nat.le_trans (by decide) (le_toSize_of_neg (by omega) (by omega))
      obtain ⟨s', hcall, hv, hcontent⟩ :=
        @Storage.Valid.append _ s h (by decide) data _ (.inr hhuge)
      refine ⟨s', hcall, hv, hcontent.trans ?_⟩
      rw [insert_of_ne (by simp), if_neg (by omega), if_neg fun haccepted => hlen haccepted.1]
  | resetBuffer => exact ⟨s.reset, rfl, h.reset, rfl⟩

end LogCall

/-! ## Sequences of calls -/

/-- The calls on a stream. -/
def logStream : Machine LogBuffer LogCall Overrun where
  enabled _ call := call.Pre
  exec s call := call.exec s

theorem logStream_refines :
    logStream.Refines Storage.Valid Storage.content LogCall.insert where
  step _ call h hpre := call.exec_spec h hpre

/-- The texts of the insertions that were accepted since the last reset, from those before the
calls on. -/
def accepted (texts : List Bytes) : List LogCall → List Bytes
  | [] => texts
  | .resetBuffer :: calls => accepted [] calls
  | call :: calls =>
    if call.Accepted (kSmallBuffer - texts.flatten.length) then
      accepted (texts ++ [call.text]) calls
    else accepted texts calls

theorem flatten_accepted (texts : List Bytes) (calls : List LogCall) :
    (accepted texts calls).flatten = calls.foldl LogCall.insert texts.flatten := by
  induction calls generalizing texts with
  | nil => rfl
  | cons call calls ih =>
    rw [List.foldl_cons]
    by_cases hreset : call = .resetBuffer
    · subst hreset
      rw [accepted, ih]
      rfl
    · rw [LogCall.insert_of_ne hreset, accepted]
      · split_ifs
        · rw [ih, List.flatten_append, List.flatten_singleton]
        · exact ih texts
      · exact hreset

/-- For every sequence of calls on a stream, whatever its array held at first : no call reads or
writes outside of an array, the cursor stays inside the array or at its end, and the content is
the texts of the insertions that were accepted since the last reset, each of them whole. The next
call appends its text or leaves the content as it is. -/
theorem insertions_all_or_nothing {data : Bytes} (hdata : data.length = kSmallBuffer)
    (calls : List LogCall) (hpre : ∀ call ∈ calls, call.Pre) :
    ∃ s, logStream.Run (.new data) calls s ∧ s.data.length = kSmallBuffer ∧
      s.cur ≤ kSmallBuffer ∧ s.content = (accepted [] calls).flatten ∧
      ∀ call : LogCall, call.Pre → call ≠ .resetBuffer → ∃ s', call.exec s = .ok s' ∧
        s'.content = if call.Accepted (kSmallBuffer - s.content.length) then s.content ++ call.text
          else s.content := by
  have hnew := Storage.new_valid hdata
  obtain ⟨s, hrun⟩ := logStream_refines.keeps.exists_run hnew fun call hcall _ _ => hpre call hcall
  obtain ⟨hv, hcontent⟩ := logStream_refines.run hnew hrun
  refine ⟨s, hrun, hv.length_data, hv.cur_le, ?_, fun call hpre hreset => ?_⟩
  · rw [hcontent, flatten_accepted, Storage.content_new]
    rfl
  · obtain ⟨s', hcall, -, hcontent'⟩ := call.exec_spec hv hpre
    exact ⟨s', hcall, hcontent'.trans (LogCall.insert_of_ne hreset _)⟩

/-- A string, a reset, a number, and a string that would fill the array. -/
theorem insertions_all_or_nothing_full :
    ∃ s, logStream.Run (.new (List.replicate kSmallBuffer 0))
        [.string (ascii "ab"), .resetBuffer, .integer (.int 42), .string (List.replicate 3998 97)]
        s ∧ s.content = ascii "42" := by
  have hbig : (List.replicate 3998 (97 : UInt8)).length = 3998 := List.length_replicate
  generalize List.replicate 3998 (97 : UInt8) = big at hbig ⊢
  obtain ⟨s, hrun, -, -, hcontent, -⟩ :=
    insertions_all_or_nothing (List.length_replicate (n := kSmallBuffer) (a := 0))
      [.string (ascii "ab"), .resetBuffer, .integer (.int 42), .string big]
      (by simp [LogCall.Pre])
  refine ⟨s, hrun, hcontent.trans ?_⟩
  have htext : (LogCall.integer (.int 42)).text = ascii "42" := by decide
  have hfirst : (LogCall.string (ascii "ab")).Accepted kSmallBuffer := by decide
  have hnumber : (LogCall.integer (.int 42)).Accepted kSmallBuffer := by decide
  have hlast : ¬(LogCall.string big).Accepted (kSmallBuffer - 2) := by
    rw [LogCall.Accepted, LogCall.text, hbig]
    · decide
    all_goals simp
  simp only [accepted, List.flatten_nil, List.length_nil, Nat.sub_zero, if_pos hfirst,
    if_pos hnumber, htext, List.nil_append]
  exact congrArg List.flatten (if_neg hlast)

end Tmuduo
