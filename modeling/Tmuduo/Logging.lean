import Tmuduo.LogStream
import Tmuduo.TimeFormat
import Tmuduo.Timestamp

/-!
# Log records

A `Logger` writes the time, the thread and the level into its stream when it is made, the program
inserts into the stream, and `~Logger` adds the place in the source and a newline and gives the
content to `g_output`. Each of these pieces is inserted on its own, so it may be left out where it
does not fit. A failed assertion, or an access outside of an array, is a `LogAbort`.

`localtime_r`, `strerror_r` and the id of the thread are those of the system. `TimeCache` holds
the text of the last second of the thread.

`record_line_iff` says which records are lines. The newline is an insertion like the others, and it
is left out when the pieces before it leave one byte.
-/

set_option autoImplicit false

namespace Tmuduo

/-- The failed assertions of the log, and the accesses outside of an array. -/
inductive LogAbort
  | timeLength
  | fmtLength
  | literalLength
  | overrun (e : Overrun)
  deriving DecidableEq, Repr

/-- `Logger::LogLevel`. -/
inductive LogLevel
  | TRACE
  | DEBUG
  | INFO
  | WARN
  | ERROR
  | FATAL
  deriving DecidableEq, Repr

def LogLevelName : LogLevel → Bytes
  | .TRACE => ascii "TRACE "
  | .DEBUG => ascii "DEBUG "
  | .INFO => ascii "INFO  "
  | .WARN => ascii "WARN  "
  | .ERROR => ascii "ERROR "
  | .FATAL => ascii "FATAL "

/-! ## The source file -/

/-- `Logger::SourceFile` : `size` bytes at a pointer. -/
structure SourceFile where
  data : Bytes
  size : BitVec 32
  size_le : size.toInt ≤ data.length

/-- `strrchr` : the last place of `c` before the zero at the end. -/
def strrchr (str : Bytes) (c : UInt8) : Option ℕ :=
  let str := str.take (strlen str)
  (str.reverse.findIdx? (· = c)).map (str.length - 1 - ·)

/-- Where the name of the file starts. -/
def basenameStart (filename : Bytes) : ℕ :=
  match strrchr filename '/'.toUInt8 with
  | some slash => slash + 1
  | none => 0

theorem toInt_ofNat_le (n : ℕ) : (BitVec.ofNat 32 n).toInt ≤ n := by
  rw [BitVec.toInt_ofNat', Int.bmod_def]
  split_ifs <;> omega

namespace SourceFile

/-- The constructor for an array of characters. -/
def ofArray (arr : Bytes) : SourceFile where
  data := arr.drop (basenameStart arr)
  size := BitVec.ofNat 32 (arr.length - basenameStart arr)
  size_le := by
    rw [List.length_drop]
    exact toInt_ofNat_le _

/-- The constructor for a pointer. -/
def ofPointer (filename : Bytes) : SourceFile where
  data := filename.drop (basenameStart filename)
  size := BitVec.ofNat 32 (strlen (filename.drop (basenameStart filename)))
  size_le := Int.le_trans (toInt_ofNat_le _) (Int.ofNat_le.mpr (strlen_le _))

/-- The bytes that are written. -/
def name (file : SourceFile) : Bytes := file.data.take file.size.toInt.toNat

theorem name_eq_nil_iff (file : SourceFile) : file.name = [] ↔ file.size.toInt ≤ 0 := by
  have hsize := file.size_le
  rw [← List.length_eq_zero_iff, name, List.length_take]
  omega

end SourceFile

/-! ## What a thread keeps -/

/-- `t_lastSecond` and `t_time`. Before the first record the text is empty, afterwards it is that of
the second. -/
structure TimeCache (localtime_r : ℤ → Tm) where
  lastSecond : ℤ
  time : Bytes
  valid : (lastSecond = 0 ∧ time = []) ∨
    (time = (localtime_r lastSecond).format ∧ time.length = 17)

namespace TimeCache

variable {localtime_r : ℤ → Tm}

def new : TimeCache localtime_r := ⟨0, [], .inl ⟨rfl, rfl⟩⟩

/-- The first half of `Logger::Impl::formatTime`. -/
def refresh (cache : TimeCache localtime_r) (seconds : ℤ) :
    Except LogAbort (TimeCache localtime_r) :=
  if seconds ≠ cache.lastSecond then
    let text := (localtime_r seconds).format
    if h : text.length = 17 then
      .ok ⟨seconds, snprintf 64 text, by
        rw [snprintf, List.take_of_length_le (by omega)]
        exact .inr ⟨rfl, h⟩⟩
    else .error .timeLength
  else .ok cache

/-- The text is that of the second afterwards. -/
theorem refresh_lastSecond {cache cache' : TimeCache localtime_r} {seconds : ℤ}
    (h : cache.refresh seconds = .ok cache') : cache'.lastSecond = seconds := by
  unfold refresh at h
  by_cases hsame : seconds ≠ cache.lastSecond
  · rw [if_pos hsame] at h
    simp only at h
    split_ifs at h
    rw [← Except.ok.inj h]
  · rw [if_neg hsame] at h
    rw [← Except.ok.inj h]
    exact (not_not.mp hsame).symm

/-- A text of the right length is that of the second. -/
theorem refresh_time {cache cache' : TimeCache localtime_r} {seconds : ℤ}
    (h : cache.refresh seconds = .ok cache') (hlen : strlen cache'.time = 17) :
    cache'.time = (localtime_r seconds).format ∧ cache'.time.length = 17 := by
  have hlast := refresh_lastSecond h
  rcases cache'.valid with ⟨-, hempty⟩ | hcached
  · rw [hempty] at hlen
    cases hlen
  · rwa [hlast] at hcached

end TimeCache

/-- `t_cachedTid`, `t_tidString` and `t_tidStringLength`. -/
structure CurrentThread where
  cachedTid : ℤ
  tidString : Bytes
  tidStringLength : ℕ
  deriving DecidableEq, Repr

namespace CurrentThread

def new : CurrentThread := ⟨0, [], 6⟩

/-- `CurrentThread::tid`, with `cacheTid`. -/
def tid (gettid : ℤ) (t : CurrentThread) : CurrentThread :=
  if t.cachedTid = 0 then
    let text := spacePadded 6 gettid ++ ascii " "
    ⟨gettid, snprintf 32 text, text.length⟩
  else t

end CurrentThread

/-- The variables of a thread. -/
structure ThreadLocals (localtime_r : ℤ → Tm) where
  cache : TimeCache localtime_r
  current : CurrentThread

/-! ## The logger -/

/-- `stream_ << T(str, len)`. -/
def insertT (s : LogBuffer) (str : Bytes) (len : ℕ) : Except LogAbort LogBuffer := do
  check (strlen str = len) .literalLength
  ((LogCall.append str (BitVec.ofNat 32 len)).exec s).mapError .overrun

/-- `Fmt::Fmt`, of a text. -/
def Fmt (text : Bytes) : Except LogAbort Bytes := do
  check (text.length < 32) .fmtLength
  return snprintf 32 text

/-- Insertions one after the other. -/
def insertAll (s : LogBuffer) (calls : List LogCall) : Except Overrun LogBuffer :=
  calls.foldlM LogCall.exec s

/-- `Logger` with its `Impl`. -/
structure Logger where
  stream : LogBuffer
  level : LogLevel
  line : BitVec 32
  basename : SourceFile

/-- The arguments of the constructors of `Logger`, behind the place in the source. -/
inductive LoggerArgs
  | none
  | level (level : LogLevel)
  | func (level : LogLevel) (func : Option Bytes)
  | toAbort (toAbort : Bool) (errno : BitVec 32)
  | backtrace (level : LogLevel) (func : Option Bytes) (backtrace : Bytes)
  deriving DecidableEq, Repr

namespace LoggerArgs

/-- The level that is given to `Impl`. -/
def implLevel : LoggerArgs → LogLevel
  | none => .INFO
  | level l => l
  | func l _ => l
  | toAbort t _ => if t then .FATAL else .ERROR
  | backtrace l _ _ => l

/-- The `savedErrno` that is given to `Impl`. -/
def savedErrno : LoggerArgs → BitVec 32
  | toAbort _ errno => errno
  | _ => 0

/-- What the constructor inserts behind `Impl`. -/
def insertions : LoggerArgs → List LogCall
  | func _ f => [.cstring f, .char ' '.toUInt8]
  | backtrace _ f b => [.cstring f, .char ' '.toUInt8, .string b, .char ' '.toUInt8]
  | _ => []

end LoggerArgs

namespace Logger

variable (localtime_r : ℤ → Tm) (strerror_r : BitVec 32 → Bytes) (gettid : ℤ)

/-- The first text of a record : the time with its microseconds. -/
def timeText (now : Timestamp) : Bytes :=
  (localtime_r (now.tdiv Timestamp.kMicroSecondsPerSecond)).format ++ ascii "." ++
    zeroPadded 6 (now.tmod Timestamp.kMicroSecondsPerSecond) ++ ascii " "

variable {localtime_r}

/-- `Logger::Impl::formatTime`. -/
def formatTime (now : Timestamp) (cache : TimeCache localtime_r) (stream : LogBuffer) :
    Except LogAbort (TimeCache localtime_r × LogBuffer) := do
  let seconds := now.tdiv Timestamp.kMicroSecondsPerSecond
  let microseconds := now.tmod Timestamp.kMicroSecondsPerSecond
  let cache ← cache.refresh seconds
  let stream ← insertT stream cache.time 17
  let fmt ← Fmt (ascii "." ++ zeroPadded 6 microseconds ++ ascii " ")
  let stream ← insertT stream fmt 8
  return (cache, stream)

/-- `Logger::Impl::Impl`. `data` is what the array of the stream holds at first. -/
def impl (locals : ThreadLocals localtime_r) (now : Timestamp) (data : Bytes) (level : LogLevel)
    (savedErrno : BitVec 32) (file : SourceFile) (line : BitVec 32) :
    Except LogAbort (ThreadLocals localtime_r × Logger) := do
  let (cache, stream) ← formatTime now locals.cache (.new data)
  let current := locals.current.tid gettid
  let stream ← insertT stream current.tidString current.tidStringLength
  let stream ← insertT stream (LogLevelName level) 6
  let errnoText : List LogCall := if savedErrno ≠ 0 then
    [.cstring (some (strerror_r savedErrno)), .cstring (some (ascii " (errno=")),
      .integer (.int savedErrno), .cstring (some (ascii ")"))] else []
  let stream ← (insertAll stream errnoText).mapError .overrun
  return (⟨cache, current⟩, ⟨stream, level, line, file⟩)

/-- The constructors of `Logger`. -/
def ctor (locals : ThreadLocals localtime_r) (now : Timestamp) (data : Bytes) (args : LoggerArgs)
    (file : SourceFile) (line : BitVec 32) :
    Except LogAbort (ThreadLocals localtime_r × Logger) := do
  let (locals, l) ← impl strerror_r gettid locals now data args.implLevel args.savedErrno file line
  let stream ← (insertAll l.stream args.insertions).mapError .overrun
  return (locals, { l with stream })

variable (l : Logger)

/-- The insertions of `Logger::Impl::finish`. -/
def trailer : List LogCall :=
  [.cstring (some (ascii " - ")), .append l.basename.data l.basename.size, .char ':'.toUInt8,
    .integer (.int l.line), .char '\n'.toUInt8]

/-- `Logger::~Logger` : what `g_output` is given, and whether the program is aborted. -/
def destroy : Except Overrun (Bytes × Bool) := do
  let stream ← insertAll l.stream l.trailer
  return (stream.content, l.level = .FATAL)

end Logger

/-! ## The insertions of a logger -/

theorem insertAll_spec {s : LogBuffer} (h : s.Valid) {calls : List LogCall}
    (hpre : ∀ call ∈ calls, call.Pre) :
    ∃ s', insertAll s calls = .ok s' ∧ s'.Valid ∧
      s'.content = calls.foldl LogCall.insert s.content := by
  induction calls generalizing s with
  | nil => exact ⟨s, rfl, h, rfl⟩
  | cons call calls ih =>
    obtain ⟨s₁, hcall, hv, hcontent⟩ := call.exec_spec h (hpre call List.mem_cons_self)
    obtain ⟨s', hcalls, hv', hcontent'⟩ :=
      ih hv fun c hc => hpre c (List.mem_cons_of_mem call hc)
    refine ⟨s', ?_, hv', by rw [hcontent', hcontent, List.foldl_cons]⟩
    rw [insertAll, List.foldlM_cons, hcall]
    exact hcalls

theorem insertT_spec {s s' : LogBuffer} (h : s.Valid) {str : Bytes} {len : ℕ}
    (hcall : insertT s str len = .ok s') :
    strlen str = len ∧ s'.Valid ∧
      s'.content = LogCall.insert s.content (.append str (BitVec.ofNat 32 len)) := by
  obtain ⟨hlen, hcall⟩ := check_bind_eq_ok_iff.mp hcall
  have hpre : (LogCall.append str (BitVec.ofNat 32 len)).Pre := by
    have hle := toInt_ofNat_le len
    have hstr := strlen_le str
    change (BitVec.ofNat 32 len).toInt ≤ str.length
    omega
  obtain ⟨s'', hexec, hv, hcontent⟩ := LogCall.exec_spec h _ hpre
  rw [hexec] at hcall
  obtain rfl := Except.ok.inj hcall
  exact ⟨hlen, hv, hcontent⟩

/-- An insertion does not touch what is there. -/
theorem isPrefix_insert (content : Bytes) {call : LogCall} (h : call ≠ .resetBuffer) :
    content <+: LogCall.insert content call := by
  rw [LogCall.insert_of_ne h]
  split_ifs
  · exact List.prefix_append _ _
  · exact List.prefix_rfl

theorem isPrefix_foldl_insert (content : Bytes) {calls : List LogCall}
    (h : ∀ call ∈ calls, call ≠ .resetBuffer) : content <+: calls.foldl LogCall.insert content := by
  induction calls generalizing content with
  | nil => exact List.prefix_rfl
  | cons call calls ih =>
    refine (isPrefix_insert content (h call List.mem_cons_self)).trans ?_
    exact ih _ fun c hc => h c (List.mem_cons_of_mem call hc)

/-- What is inserted where `room` bytes are left. -/
def fitted : ℕ → List LogCall → Bytes
  | _, [] => []
  | room, call :: calls =>
    if call.Accepted room then call.text ++ fitted (room - call.text.length) calls
    else fitted room calls

theorem foldl_insert_eq (content : Bytes) {calls : List LogCall}
    (h : ∀ call ∈ calls, call ≠ .resetBuffer) :
    calls.foldl LogCall.insert content =
      content ++ fitted (kSmallBuffer - content.length) calls := by
  induction calls generalizing content with
  | nil => rw [fitted, List.append_nil, List.foldl_nil]
  | cons call calls ih =>
    rw [List.foldl_cons, ih _ fun c hc => h c (List.mem_cons_of_mem call hc),
      LogCall.insert_of_ne (h call List.mem_cons_self), fitted]
    split_ifs
    · rw [List.append_assoc, List.length_append, Nat.sub_sub]
    · rfl

namespace Logger

variable {localtime_r : ℤ → Tm} {strerror_r : BitVec 32 → Bytes} {gettid : ℤ}

/-- A whole text that fits. -/
theorem insert_append_all {content str : Bytes} (hsmall : str.length < 2 ^ 31)
    (hfit : str.length < kSmallBuffer - content.length) :
    LogCall.insert content (.append str (BitVec.ofNat 32 str.length)) = content ++ str := by
  have hlen : (BitVec.ofNat 32 str.length).toInt = str.length := by
    rw [BitVec.toInt_eq_toNat_of_lt (by rw [BitVec.toNat_ofNat]; omega), BitVec.toNat_ofNat,
      Nat.mod_eq_of_lt (by omega)]
  rw [LogCall.insert_of_ne (by simp), if_pos, LogCall.text, hlen, Int.toNat_natCast,
    List.take_length]
  exact ⟨by omega, by rw [hlen, Int.toNat_natCast]; exact hfit⟩

/-- The microseconds are printed whole, and without a zero byte. -/
theorem fmt_microseconds {n : ℤ} {fmt : Bytes}
    (h : Fmt (ascii "." ++ zeroPadded 6 n ++ ascii " ") = .ok fmt) :
    fmt = ascii "." ++ zeroPadded 6 n ++ ascii " " ∧ strlen fmt = fmt.length := by
  obtain ⟨hlen, h⟩ := check_bind_eq_ok_iff.mp h
  have hfmt : fmt = ascii "." ++ zeroPadded 6 n ++ ascii " " := by
    rw [← Except.ok.inj h]
    exact List.take_of_length_le (Nat.le_of_lt_succ hlen)
  refine ⟨hfmt, strlen_of_not_mem ?_⟩
  rw [hfmt, List.mem_append, List.mem_append]
  rintro ((hzero | hzero) | hzero)
  · exact absurd hzero (by decide)
  · exact zero_not_mem_zeroPadded _ _ hzero
  · exact absurd hzero (by decide)

/-- The record starts with the time. -/
theorem formatTime_content {now : Timestamp} {cache cache' : TimeCache localtime_r} {data : Bytes}
    {s' : LogBuffer} (hdata : data.length = kSmallBuffer)
    (h : formatTime now cache (.new data) = .ok (cache', s')) :
    s'.Valid ∧ s'.content = timeText localtime_r now := by
  obtain ⟨c, hrefresh, h⟩ := bind_eq_ok_iff.mp h
  obtain ⟨s₁, h₁, h⟩ := bind_eq_ok_iff.mp h
  obtain ⟨fmt, hfmt, h⟩ := bind_eq_ok_iff.mp h
  obtain ⟨s₂, h₂, h⟩ := bind_eq_ok_iff.mp h
  obtain ⟨rfl, rfl⟩ := Prod.mk.inj (Except.ok.inj h)
  obtain ⟨hlen₁, hv₁, hcontent₁⟩ := insertT_spec (Storage.new_valid hdata) h₁
  obtain ⟨hlen₂, hv₂, hcontent₂⟩ := insertT_spec hv₁ h₂
  refine ⟨hv₂, ?_⟩
  obtain ⟨htime, hseventeen⟩ := TimeCache.refresh_time hrefresh hlen₁
  obtain ⟨hmicro, hstrlen⟩ := fmt_microseconds hfmt
  rw [hstrlen] at hlen₂
  rw [Storage.content_new, ← hseventeen, insert_append_all (by omega) (by rw [hseventeen]; decide),
    List.nil_append] at hcontent₁
  rw [← hlen₂, insert_append_all (by omega), hcontent₁, htime, hmicro] at hcontent₂
  · rw [hcontent₂, timeText]
    simp only [List.append_assoc]
  · rw [hlen₂, hcontent₁, hseventeen]
    decide

/-- Insertions that succeeded, by what they did to the content. -/
theorem insertAll_content {s s' : LogBuffer} (h : s.Valid) {calls : List LogCall}
    (hpre : ∀ call ∈ calls, call.Pre) (hreset : ∀ call ∈ calls, call ≠ .resetBuffer)
    (hcall : insertAll s calls = .ok s') : s'.Valid ∧ s.content <+: s'.content := by
  obtain ⟨s'', hcall', hv, hcontent⟩ := insertAll_spec h hpre
  obtain rfl := Except.ok.inj (hcall.symm.trans hcall')
  rw [hcontent]
  exact ⟨hv, isPrefix_foldl_insert _ hreset⟩

theorem insertT_content {s s' : LogBuffer} (h : s.Valid) {str : Bytes} {len : ℕ}
    (hcall : insertT s str len = .ok s') : s'.Valid ∧ s.content <+: s'.content := by
  obtain ⟨-, hv, hcontent⟩ := insertT_spec h hcall
  rw [hcontent]
  exact ⟨hv, isPrefix_insert _ (by simp)⟩

theorem impl_content {locals locals' : ThreadLocals localtime_r} {now : Timestamp} {data : Bytes}
    {level : LogLevel} {savedErrno : BitVec 32} {file : SourceFile} {line : BitVec 32} {l : Logger}
    (hdata : data.length = kSmallBuffer)
    (h : impl strerror_r gettid locals now data level savedErrno file line = .ok (locals', l)) :
    l.stream.Valid ∧ timeText localtime_r now <+: l.stream.content ∧ l.basename = file := by
  obtain ⟨⟨cache, s₁⟩, htime, h⟩ := bind_eq_ok_iff.mp h
  obtain ⟨s₂, h₂, h⟩ := bind_eq_ok_iff.mp h
  obtain ⟨s₃, h₃, h⟩ := bind_eq_ok_iff.mp h
  obtain ⟨s₄, h₄, h⟩ := bind_eq_ok_iff.mp h
  obtain ⟨rfl, rfl⟩ := Prod.mk.inj (Except.ok.inj h)
  obtain ⟨hv₁, hcontent⟩ := formatTime_content hdata htime
  obtain ⟨hv₂, hp₂⟩ := insertT_content hv₁ h₂
  obtain ⟨hv₃, hp₃⟩ := insertT_content hv₂ h₃
  obtain ⟨hv₄, hp₄⟩ := insertAll_content hv₃ (by split_ifs <;> simp [LogCall.Pre])
    (by split_ifs <;> simp) (mapError_eq_ok_iff.mp h₄)
  refine ⟨hv₄, ?_, rfl⟩
  rw [← hcontent]
  exact (hp₂.trans hp₃).trans hp₄

/-- A new logger has room in its stream, behind the time. -/
theorem ctor_content {locals locals' : ThreadLocals localtime_r} {now : Timestamp} {data : Bytes}
    {args : LoggerArgs} {file : SourceFile} {line : BitVec 32} {l : Logger}
    (hdata : data.length = kSmallBuffer)
    (h : ctor strerror_r gettid locals now data args file line = .ok (locals', l)) :
    l.stream.Valid ∧ timeText localtime_r now <+: l.stream.content ∧ l.basename = file := by
  obtain ⟨⟨locals₁, l₁⟩, himpl, h⟩ := bind_eq_ok_iff.mp h
  obtain ⟨s, hs, h⟩ := bind_eq_ok_iff.mp h
  obtain ⟨rfl, rfl⟩ := Prod.mk.inj (Except.ok.inj h)
  obtain ⟨hv, hprefix, hfile⟩ := impl_content hdata himpl
  obtain ⟨hv', hprefix'⟩ := insertAll_content hv
    (by cases args <;> simp [LoggerArgs.insertions, LogCall.Pre])
    (by cases args <;> simp [LoggerArgs.insertions]) (mapError_eq_ok_iff.mp hs)
  exact ⟨hv', hprefix.trans hprefix', hfile⟩

/-! ## The end of a record -/

/-- The text ends with a newline. -/
def EndsLine (text : Bytes) : Prop := text.getLast? = some '\n'.toUInt8

instance (text : Bytes) : Decidable (EndsLine text) := inferInstanceAs (Decidable (_ = _))

theorem endsLine_append (a b : Bytes) : EndsLine (a ++ b) ↔ EndsLine b ∨ (b = [] ∧ EndsLine a) := by
  unfold EndsLine
  rcases List.eq_nil_or_concat b with rfl | ⟨b, x, rfl⟩
  · simp
  · simp [← List.append_assoc]

theorem endsLine_append_of_ne {c : UInt8} (h : c ≠ '\n'.toUInt8) (x : Bytes) :
    ¬EndsLine (x ++ [c]) := by
  rw [endsLine_append]
  simp [EndsLine, h]

theorem fitted_of_accepted {room : ℕ} {call : LogCall} (h : call.Accepted room) (x : Bytes)
    (calls : List LogCall) :
    x ++ fitted room (call :: calls) =
      (x ++ call.text) ++ fitted (room - call.text.length) calls := by
  rw [fitted, if_pos h, List.append_assoc]

theorem fitted_of_not_accepted {room : ℕ} {call : LogCall} (h : ¬call.Accepted room)
    (calls : List LogCall) : fitted room (call :: calls) = fitted room calls := by
  rw [fitted, if_neg h]

/-- The newline fits when two bytes are left. -/
theorem endsLine_newline (x : Bytes) (room : ℕ) :
    EndsLine (x ++ fitted room [.char '\n'.toUInt8]) ↔ 1 < room ∨ EndsLine x := by
  by_cases h : (LogCall.char '\n'.toUInt8).Accepted room
  · have hroom : 1 < room := h
    rw [fitted_of_accepted h, fitted, List.append_nil, endsLine_append]
    exact iff_of_true (Or.inl rfl) (Or.inl hroom)
  · have hroom : ¬1 < room := h
    rw [fitted_of_not_accepted h, fitted, List.append_nil]
    exact (or_iff_right hroom).symm

/-- The number of the line leaves room for the newline, because it is only written where a longer
one would fit. -/
theorem endsLine_number (x : Bytes) (line : BitVec 32) (room : ℕ) :
    EndsLine (x ++ fitted room [.integer (.int line), .char '\n'.toUInt8]) ↔
      1 < room ∨ EndsLine x := by
  by_cases h : (LogCall.integer (.int line)).Accepted room
  · have hroom : 32 ≤ room := h
    have hlen : (LogCall.integer (.int line)).text.length ≤ 21 :=
      LogStream.length_integerText_le (LogStream.Integer.natAbs_value_lt _)
    rw [fitted_of_accepted h, endsLine_newline]
    exact iff_of_true (Or.inl (by omega)) (Or.inl (by omega))
  · rw [fitted_of_not_accepted h, endsLine_newline]

/-- The colon, the number and the newline. -/
theorem endsLine_colon (x : Bytes) (line : BitVec 32) (room : ℕ) :
    EndsLine (x ++ fitted room
      [.char ':'.toUInt8, .integer (.int line), .char '\n'.toUInt8]) ↔
      3 ≤ room ∨ (room ≤ 1 ∧ EndsLine x) := by
  by_cases h : (LogCall.char ':'.toUInt8).Accepted room
  · have hroom : 1 < room := h
    have hcolon : ¬EndsLine (x ++ (LogCall.char ':'.toUInt8).text) :=
      endsLine_append_of_ne (by decide) x
    have hlen : (LogCall.char ':'.toUInt8).text.length = 1 := rfl
    rw [fitted_of_accepted h, endsLine_number, hlen]
    simp only [hcolon, or_false]
    omega
  · have hroom : ¬1 < room := h
    rw [fitted_of_not_accepted h, endsLine_number]
    constructor
    · rintro (hlt | hx)
      · exact absurd hlt hroom
      · exact Or.inr ⟨by omega, hx⟩
    · rintro (hle | ⟨-, hx⟩)
      · exact absurd hle (by omega)
      · exact Or.inr hx

/-- The name of the file in front of them. -/
theorem endsLine_basename (x : Bytes) (file : SourceFile) (line : BitVec 32) (room : ℕ) :
    EndsLine (x ++ fitted room [.append file.data file.size, .char ':'.toUInt8,
      .integer (.int line), .char '\n'.toUInt8]) ↔
      if 0 ≤ file.size.toInt ∧ file.size.toInt < room then
        file.size.toInt + 3 ≤ room ∨ (room = file.size.toInt + 1 ∧ EndsLine (x ++ file.name))
      else 3 ≤ room ∨ (room ≤ 1 ∧ EndsLine x) := by
  have hsize := file.size_le
  by_cases h : (LogCall.append file.data file.size).Accepted room
  · have hfit : 0 ≤ file.size.toInt ∧ file.size.toInt.toNat < room := h
    have hlen : (LogCall.append file.data file.size).text.length = file.size.toInt.toNat := by
      rw [LogCall.text, List.length_take]
      omega
    rw [fitted_of_accepted h, endsLine_colon, hlen, if_pos (by omega)]
    change _ ∨ _ ∧ EndsLine (x ++ file.name) ↔ _
    have hmore : 3 ≤ room - file.size.toInt.toNat ↔ file.size.toInt + 3 ≤ room := by omega
    have hone : room - file.size.toInt.toNat ≤ 1 ↔ (room : ℤ) = file.size.toInt + 1 := by omega
    rw [hmore, hone]
  · have hnot : ¬(0 ≤ file.size.toInt ∧ file.size.toInt < room) := by
      rintro ⟨hpos, hlt⟩
      exact h ⟨hpos, by omega⟩
    rw [fitted_of_not_accepted h, endsLine_colon, if_neg hnot]

/-- Where `room` bytes are left for the end of the record, and the name of the file has `size`
bytes, the newline is written : the pieces before it do not leave a single byte. -/
def NewlineFits (room : ℕ) (size : ℤ) : Prop :=
  (6 ≤ room ∧ (room : ℤ) ≠ size + 4 ∧ (room : ℤ) ≠ size + 5) ∨ (room = 3 ∧ size ≠ 1 ∧ size ≠ 2)

/-- Without the newline the record ends with what was inserted last, the content before the end of
the record or the name of the file, and that ends with a newline. -/
def EndsAnyway (room : ℕ) (content : Bytes) (file : SourceFile) : Prop :=
  (room ≤ 1 ∧ EndsLine content) ∨
    (((if 3 < room then room - 3 else room : ℕ) : ℤ) = file.size.toInt + 1 ∧ EndsLine file.name)

theorem size_pos_of_endsLine {file : SourceFile} (h : EndsLine file.name) :
    0 < file.size.toInt := by
  by_contra hle
  rw [file.name_eq_nil_iff.mpr (by omega)] at h
  cases h

/-- The end of the record where the dash fits : without a newline it is the name that may end with
one, as the dash does not. -/
theorem endsLine_of_dash (content : Bytes) (l : Logger) {room : ℕ} (hroom : 3 < room) :
    EndsLine (content ++ fitted room l.trailer) ↔
      NewlineFits room l.basename.size.toInt ∨ EndsAnyway room content l.basename := by
  have h : (LogCall.cstring (some (ascii " - "))).Accepted room := hroom
  have hlen : (LogCall.cstring (some (ascii " - "))).text.length = 3 := rfl
  have hdash : ¬EndsLine (content ++ (LogCall.cstring (some (ascii " - "))).text) := by
    rw [endsLine_append]
    exact not_or.mpr ⟨by decide, fun hnil => absurd hnil.1 (by decide)⟩
  have hname : EndsLine (content ++ (LogCall.cstring (some (ascii " - "))).text ++
      l.basename.name) ↔ EndsLine l.basename.name := by
    rw [endsLine_append, or_iff_left fun hnil => hdash hnil.2]
  unfold trailer NewlineFits EndsAnyway
  rw [fitted_of_accepted h, endsLine_basename, hlen, hname, if_pos hroom]
  by_cases hn : EndsLine l.basename.name
  · simp only [hn, hdash, and_true, and_false, or_false]
    split_ifs <;> omega
  · simp only [hn, hdash, and_false, or_false]
    split_ifs <;> omega

/-- The end of the record where the dash does not fit. -/
theorem endsLine_of_not_dash (content : Bytes) (l : Logger) {room : ℕ} (hroom : ¬3 < room) :
    EndsLine (content ++ fitted room l.trailer) ↔
      NewlineFits room l.basename.size.toInt ∨ EndsAnyway room content l.basename := by
  have h : ¬(LogCall.cstring (some (ascii " - "))).Accepted room := hroom
  unfold trailer NewlineFits EndsAnyway
  rw [fitted_of_not_accepted h, endsLine_basename, if_neg hroom, endsLine_append,
    l.basename.name_eq_nil_iff]
  by_cases hname : EndsLine l.basename.name <;> by_cases hc : EndsLine content
  · have hpos := size_pos_of_endsLine hname
    simp only [hname, hc, and_true, true_or]
    split_ifs <;> omega
  · have hpos := size_pos_of_endsLine hname
    simp only [hname, hc, and_true, and_false, false_or, or_false]
    split_ifs <;> omega
  · simp only [hname, hc, and_true, and_false, false_or, or_false]
    split_ifs <;> omega
  · simp only [hname, hc, and_false, or_false]
    split_ifs <;> omega

theorem endsLine_trailer (content : Bytes) (l : Logger) (room : ℕ) :
    EndsLine (content ++ fitted room l.trailer) ↔
      NewlineFits room l.basename.size.toInt ∨ EndsAnyway room content l.basename := by
  by_cases hroom : 3 < room
  · exact endsLine_of_dash content l hroom
  · exact endsLine_of_not_dash content l hroom

/-! ## Whole records -/

variable (localtime_r) in
/-- What a record should be. -/
structure IsRecord (now : Timestamp) (text : Bytes) : Prop where
  length_le : text.length ≤ kSmallBuffer
  time : timeText localtime_r now <+: text
  newline : EndsLine text

/-- For every logger and every sequence of insertions into its stream : the text that `~Logger`
gives to `g_output` has at most `kSmallBuffer` bytes and starts with the time. It is a line if and
only if the newline fits behind what `~Logger` inserts before it, or what is inserted last ends
with a newline itself. -/
theorem record_line_iff {locals locals' : ThreadLocals localtime_r} {now : Timestamp} {data : Bytes}
    {args : LoggerArgs} {file : SourceFile} {line : BitVec 32} {l : Logger}
    (hdata : data.length = kSmallBuffer)
    (hctor : ctor strerror_r gettid locals now data args file line = .ok (locals', l))
    (calls : List LogCall) (hpre : ∀ call ∈ calls, call.Pre)
    (hinsert : ∀ call ∈ calls, call ≠ .resetBuffer) :
    ∃ s text, insertAll l.stream calls = .ok s ∧
      destroy { l with stream := s } = .ok (text, l.level = .FATAL) ∧
      text.length ≤ kSmallBuffer ∧ timeText localtime_r now <+: text ∧
      (IsRecord localtime_r now text ↔
        NewlineFits (kSmallBuffer - s.content.length) file.size.toInt ∨
          EndsAnyway (kSmallBuffer - s.content.length) s.content file) := by
  obtain ⟨hv, htime, hfile⟩ := ctor_content hdata hctor
  obtain ⟨s, hcalls, hvs, hcontent⟩ := insertAll_spec hv hpre
  have hstart : timeText localtime_r now <+: s.content := by
    rw [hcontent]
    exact htime.trans (isPrefix_foldl_insert _ hinsert)
  have htrailer : ∀ call ∈ l.trailer, call.Pre ∧ call ≠ .resetBuffer := by
    have hsize := l.basename.size_le
    simp [trailer, LogCall.Pre, hsize]
  obtain ⟨t, hfinish, hvt, htext⟩ := insertAll_spec hvs fun call hcall => (htrailer call hcall).1
  rw [foldl_insert_eq _ fun call hcall => (htrailer call hcall).2] at htext
  have hlen : t.content.length ≤ kSmallBuffer := by
    rw [hvt.length_content]
    exact hvt.cur_le
  have hprefix : timeText localtime_r now <+: t.content := by
    rw [htext]
    exact hstart.trans (List.prefix_append _ _)
  refine ⟨s, t.content, hcalls, ?_, hlen, hprefix, ?_⟩
  · change (insertAll s l.trailer >>= fun t => .ok (t.content, decide (l.level = .FATAL))) = _
    rw [hfinish, ok_bind]
  · rw [← hfile, ← endsLine_trailer, ← htext]
    exact ⟨fun h => h.newline, fun h => ⟨hlen, hprefix, h⟩⟩

/-- A clock that shows a second of 2024. -/
def localtime2024 (_ : ℤ) : Tm := ⟨124, 0, 2, 3, 4, 5⟩

/-- The logger of `LOG_INFO` in line 12 of `src/a.cc`, in a new thread. -/
def infoLogger : Except LogAbort (ThreadLocals localtime2024 × Logger) :=
  ctor (fun _ => []) 7 ⟨.new, .new⟩ 1704164645123456 (List.replicate kSmallBuffer 0) .none
    (.ofArray (ascii "src/a.cc")) 12

/-- `LOG_INFO` with insertions : the stream before `~Logger`, and what `~Logger` gives. -/
def infoRecord (calls : List LogCall) : Except LogAbort (LogBuffer × Bytes × Bool) := do
  let (_, l) ← infoLogger
  let s ← (insertAll l.stream calls).mapError .overrun
  let r ← (destroy { l with stream := s }).mapError .overrun
  return (s, r)

theorem infoRecord_ok {calls : List LogCall} {s : LogBuffer} {r : Bytes × Bool}
    (h : infoRecord calls = .ok (s, r)) :
    ∃ locals' l, infoLogger = .ok (locals', l) ∧ insertAll l.stream calls = .ok s ∧
      destroy { l with stream := s } = .ok r := by
  obtain ⟨⟨locals', l⟩, hl, h⟩ := bind_eq_ok_iff.mp h
  obtain ⟨s', hs, h⟩ := bind_eq_ok_iff.mp h
  obtain ⟨r', hr, h⟩ := bind_eq_ok_iff.mp h
  obtain ⟨rfl, rfl⟩ := Prod.mk.inj (Except.ok.inj h)
  exact ⟨locals', l, hl, mapError_eq_ok_iff.mp hs, mapError_eq_ok_iff.mp hr⟩

/-- A short record. -/
theorem record_line_iff_short : ∃ locals' l s text,
    infoLogger = .ok (locals', l) ∧
    insertAll l.stream [.cstring (some (ascii "x = ")), .integer (.int 42)] = .ok s ∧
    destroy { l with stream := s } = .ok (text, false) ∧
    IsRecord localtime2024 1704164645123456 text := by
  have hev : (infoRecord [.cstring (some (ascii "x = ")), .integer (.int 42)]).map
      (fun r => (r.1.content.length, r.2.2)) = .ok (44, false) := by decide +kernel
  obtain ⟨⟨s, text, abort⟩, hrecord, hlen⟩ := map_eq_ok_iff.mp hev
  obtain ⟨hlen, rfl⟩ := Prod.mk.inj hlen
  obtain ⟨locals', l, hl, hs, htext⟩ := infoRecord_ok hrecord
  obtain ⟨s', text', hs', htext', -, -, hiff⟩ := record_line_iff List.length_replicate hl
    [.cstring (some (ascii "x = ")), .integer (.int 42)] (by simp [LogCall.Pre]) (by simp)
  obtain rfl := Except.ok.inj (hs.symm.trans hs')
  obtain ⟨rfl, -⟩ := Prod.mk.inj (Except.ok.inj (htext.symm.trans htext'))
  refine ⟨locals', l, s, text, hl, hs, htext, hiff.mpr (Or.inl (Or.inl ?_))⟩
  rw [show s.content.length = 44 from hlen]
  decide

/-- A string that leaves one byte : the record does not end with a newline. -/
theorem record_loses_newline : ∃ locals' l s text,
    infoLogger = .ok (locals', l) ∧
    insertAll l.stream [.string (List.replicate 3961 'x'.toUInt8)] = .ok s ∧
    destroy { l with stream := s } = .ok (text, false) ∧ text.getLast? = some 'x'.toUInt8 ∧
    ¬IsRecord localtime2024 1704164645123456 text := by
  have hev : (infoRecord [.string (List.replicate 3961 'x'.toUInt8)]).map
      (fun r => (r.2.1.getLast?, r.2.2)) = .ok (some 'x'.toUInt8, false) := by decide +kernel
  obtain ⟨⟨s, text, abort⟩, hrecord, hlast⟩ := map_eq_ok_iff.mp hev
  obtain ⟨hlast, rfl⟩ := Prod.mk.inj hlast
  obtain ⟨locals', l, hl, hs, htext⟩ := infoRecord_ok hrecord
  refine ⟨locals', l, s, text, hl, hs, htext, hlast, fun hrec => ?_⟩
  have hnewline : text.getLast? = some '\n'.toUInt8 := hrec.newline
  rw [show text.getLast? = some 'x'.toUInt8 from hlast] at hnewline
  exact absurd hnewline (by decide)

end Logger

end Tmuduo
