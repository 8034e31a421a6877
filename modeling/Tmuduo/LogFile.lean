import Mathlib.Data.List.Chain
import Tmuduo.AppendFile
import Tmuduo.FormattedTime
import Tmuduo.Machine

/-!
# The files of the log

`LogFile` is `tmuduo::LogFile`. `append` writes to the current file and rolls to a new one when it
has grown too large or, at every `checkEveryN_`-th line, when the day has changed. `rollFile` opens
a file only in a later second than the last one, so that its name is a new one. Nothing is assumed
about the clock : a `LogEnv` holds what one call reads of it, in two places.

The files that were closed and the current one, in their order, are all there is of the log
(`LogFile.files`). `log_file_lines` says that each line is whole in one of them. `log_file_rolls`
and `log_file_names` say when a file follows another and how it is called, and `log_file_durable`
when a line has left the buffer of the current file.
-/

set_option autoImplicit false

namespace Tmuduo

def kRollPerSeconds : ℤ := 60 * 60 * 24

/-- The first second of the day of `now`. -/
def startOfDay (now : ℤ) : ℤ := now.tdiv kRollPerSeconds * kRollPerSeconds

/-- The assertions on the base name and on `fopen`, the use of `file_` while it is null, and an
`append` that does not return. -/
inductive LogFileFault
  | basename
  | fopen
  | nullFile
  | append
  deriving DecidableEq, Repr

/-- What `localtime_r` and `ProcessInfo` give. -/
structure LogHost where
  localtime_r : ℤ → Tm
  hostname : Bytes
  pid : ℤ

/-- What the system answers during one `append` : `now` to the test of the period, `rollNow` to
`rollFile`. -/
structure LogEnv where
  fwrite : Fwrite
  now : ℤ
  rollNow : ℤ
  opens : Bool

/-- A file from its `fopen` on. `openedAt` is the second in its name, and the first `flushed` of its
bytes have left the buffer. -/
structure OpenedFile where
  name : Bytes
  openedAt : ℤ
  file : AppendFile
  flushed : ℕ
  deriving DecidableEq, Repr

namespace OpenedFile

/-- `AppendFile::AppendFile`. -/
def new (name : Bytes) (openedAt : ℤ) : OpenedFile := ⟨name, openedAt, ⟨[], 0⟩, 0⟩

variable (f : OpenedFile)

def bytes : Bytes := f.file.file

/-- What has left the buffer. -/
def onDisk : Bytes := f.bytes.take f.flushed

/-- `AppendFile::flush`, and what `fclose` does first. Both `fflush` and `fclose` are taken to
succeed, and the source does not look at what they return. -/
def flush : OpenedFile := { f with flushed := f.bytes.length }

@[simp] theorem bytes_new (name : Bytes) (openedAt : ℤ) : (new name openedAt).bytes = [] := rfl

@[simp] theorem onDisk_new (name : Bytes) (openedAt : ℤ) : (new name openedAt).onDisk = [] := rfl

@[simp] theorem bytes_flush : f.flush.bytes = f.bytes := rfl

@[simp] theorem onDisk_flush : f.flush.onDisk = f.bytes := List.take_of_length_le (Nat.le_refl _)

end OpenedFile

/-- `tmuduo::LogFile`, with the files it has closed. -/
structure LogFile where
  basename : Bytes
  rollSize : ℤ
  flushInterval : ℤ
  checkEveryN : ℤ
  count : ℤ
  startOfPeriod : ℤ
  lastRoll : ℤ
  lastFlush : ℤ
  closed : List OpenedFile
  file : Option OpenedFile
  deriving DecidableEq, Repr

/-- What `strftime` leaves in a buffer of `size` bytes, if the text fits. -/
def strftime (size : ℕ) (text : Bytes) : Bytes := if text.length < size then text else []

/-- `".%Y%m%d-%H%M%S."`. -/
def Tm.stamp (tm : Tm) : Bytes :=
  ascii "." ++ signedDecimal (tm.tm_year + 1900) ++ zeroPadded 2 (tm.tm_mon + 1) ++
    zeroPadded 2 tm.tm_mday ++ ascii "-" ++ zeroPadded 2 tm.tm_hour ++ zeroPadded 2 tm.tm_min ++
    zeroPadded 2 tm.tm_sec ++ ascii "."

namespace LogFile

variable (host : LogHost)

def getLogFileName (basename : Bytes) (now : ℤ) : Bytes :=
  basename ++ strftime 32 (host.localtime_r now).stamp ++ host.hostname ++
    snprintf 32 (ascii "." ++ signedDecimal host.pid) ++ ascii ".log"

variable (s : LogFile)

def files : List OpenedFile := s.closed ++ s.file.toList

/-- `file_.reset(new FileUtil::AppendFile(filename))` and the stores before it. -/
def reset (now : ℤ) : LogFile :=
  { s with
    lastRoll := now
    lastFlush := now
    startOfPeriod := startOfDay now
    closed := s.closed ++ s.file.toList.map OpenedFile.flush
    file := some (.new (getLogFileName host s.basename now) now) }

/-- `LogFile::rollFile`, and what it returns. -/
def rollFile (now : ℤ) (opens : Bool) : Except LogFileFault (LogFile × Bool) :=
  if now > s.lastRoll then do
    check (opens = true) .fopen
    return (s.reset host now, true)
  else return (s, false)

/-- `LogFile::LogFile`. -/
def new (basename : Bytes) (rollSize flushInterval checkEveryN now : ℤ) (opens : Bool) :
    Except LogFileFault LogFile := do
  check ('/'.toUInt8 ∉ basename) .basename
  let s : LogFile := ⟨basename, rollSize, flushInterval, checkEveryN, 0, 0, 0, 0, [], none⟩
  let (s, _) ← s.rollFile host now opens
  return s

/-- `LogFile::flush`. Its `fflush` is taken to succeed. -/
def flush : Except LogFileFault LogFile :=
  match s.file with
  | none => .error .nullFile
  | some f => return { s with file := some f.flush }

/-- What `append_unlocked` does after the line is written : `file` is what `append` left. -/
def afterAppend (e : LogEnv) (file : AppendFile) : Except LogFileFault LogFile :=
  if (file.writtenBytes : ℤ) > s.rollSize then do
    let (s, _) ← s.rollFile host e.rollNow e.opens
    return s
  else
    let s := { s with count := s.count + 1 }
    if s.count ≥ s.checkEveryN then
      let s := { s with count := 0 }
      let thisPeriod := startOfDay e.now
      if thisPeriod ≠ s.startOfPeriod then do
        let (s, _) ← s.rollFile host e.rollNow e.opens
        return s
      else if e.now - s.lastFlush > s.flushInterval then { s with lastFlush := e.now }.flush
      else return s
    else return s

def append_unlocked (e : LogEnv) (logline : Bytes) : Except LogFileFault LogFile :=
  match s.file with
  | none => .error .nullFile
  | some f =>
    match f.file.append e.fwrite logline with
    | none => .error .append
    | some file => { s with file := some { f with file := file } }.afterAppend host e file

end LogFile

/-- The calls of a log file. -/
inductive LogFileStep
  | append (logline : Bytes) (e : LogEnv)
  | flush

/-- A log file, whose calls are made one at a time. -/
def logFile (host : LogHost) : Machine LogFile LogFileStep LogFileFault where
  enabled _ _ := True
  exec s
    | .append logline e => s.append_unlocked host e logline
    | .flush => s.flush

instance (host : LogHost) (s : LogFile) (l : LogFileStep) :
    Decidable ((logFile host).enabled s l) := isTrue trivial

/-! ## One call -/

namespace LogFile

variable {host : LogHost} {e : LogEnv} {s u : LogFile} {logline : Bytes}

/-- How `append_unlocked` ends, with the line written to `g` : a new file is opened; it is too early
to open one; the line is counted; the file is flushed; or it was flushed a short while ago. -/
inductive Outcome (host : LogHost) (e : LogEnv) (s : LogFile) (g : OpenedFile) : LogFile → Prop
  | rolled (count : ℤ) (hcount : count = s.count ∨ count = 0) (hlater : s.lastRoll < e.rollNow)
      (hwhy : s.rollSize < g.file.writtenBytes ∨ startOfDay e.now ≠ s.startOfPeriod) :
      Outcome host e s g ({ s with file := some g, count := count }.reset host e.rollNow)
  | held (count : ℤ) (hcount : count = s.count ∨ count = 0) (hearly : e.rollNow ≤ s.lastRoll) :
      Outcome host e s g { s with file := some g, count := count }
  | counted (hsize : g.file.writtenBytes ≤ s.rollSize) (hfew : s.count + 1 < s.checkEveryN) :
      Outcome host e s g { s with file := some g, count := s.count + 1 }
  | flushed (hsize : g.file.writtenBytes ≤ s.rollSize) (hday : startOfDay e.now = s.startOfPeriod) :
      Outcome host e s g { s with file := some g.flush, count := 0, lastFlush := e.now }
  | fresh (hsize : g.file.writtenBytes ≤ s.rollSize)
      (hrecent : e.now - s.lastFlush ≤ s.flushInterval) :
      Outcome host e s g { s with file := some g, count := 0 }

theorem rollFile_cases {now : ℤ} {opens : Bool} {b : Bool}
    (h : s.rollFile host now opens = .ok (u, b)) :
    (s.lastRoll < now ∧ u = s.reset host now) ∨ (now ≤ s.lastRoll ∧ u = s) := by
  unfold rollFile at h
  split_ifs at h with hlater
  · obtain ⟨-, hu⟩ := check_bind_eq_ok_iff.mp h
    exact .inl ⟨hlater, (congrArg Prod.fst (Except.ok.inj hu)).symm⟩
  · exact .inr ⟨Int.not_lt.mp hlater, (congrArg Prod.fst (Except.ok.inj h)).symm⟩

theorem afterAppend_outcome {g : OpenedFile}
    (h : { s with file := some g }.afterAppend host e g.file = .ok u) : Outcome host e s g u := by
  unfold afterAppend at h
  split_ifs at h with hsize
  · obtain ⟨⟨v, b⟩, hroll, hv⟩ := bind_eq_ok_iff.mp h
    obtain rfl := Except.ok.inj hv
    rcases rollFile_cases hroll with ⟨hlater, rfl⟩ | ⟨hearly, rfl⟩
    · exact .rolled s.count (.inl rfl) hlater (.inl hsize)
    · exact .held s.count (.inl rfl) hearly
  · have hsize := Int.not_lt.mp hsize
    simp only at h
    split_ifs at h with hmany hday hlong
    · obtain ⟨⟨v, b⟩, hroll, hv⟩ := bind_eq_ok_iff.mp h
      obtain rfl := Except.ok.inj hv
      rcases rollFile_cases hroll with ⟨hlater, rfl⟩ | ⟨hearly, rfl⟩
      · exact .rolled 0 (.inr rfl) hlater (.inr hday)
      · exact .held 0 (.inr rfl) hearly
    · obtain rfl := Except.ok.inj h
      exact .flushed hsize (not_not.mp hday)
    · obtain rfl := Except.ok.inj h
      exact .fresh hsize (Int.not_lt.mp hlong)
    · obtain rfl := Except.ok.inj h
      exact .counted hsize (Int.not_le.mp hmany)

/-- `append_unlocked` writes to the current file, a part of the line at least, and counts all of
it. -/
theorem append_unlocked_outcome (h : s.append_unlocked host e logline = .ok u) :
    ∃ f g m, s.file = some f ∧ Outcome host e s g u ∧
      g.name = f.name ∧ g.openedAt = f.openedAt ∧ g.flushed = f.flushed ∧
      g.bytes = f.bytes ++ logline.take m ∧
      g.file.writtenBytes = f.file.writtenBytes + logline.length ∧
      (¬e.fwrite.Stalls logline.length → m = logline.length) := by
  unfold append_unlocked at h
  split at h
  · cases h
  next f hf =>
  obtain ⟨m, file, hfile, hbytes, hcount, hend⟩ := f.file.append_eq logline e.fwrite
  rw [hfile] at h
  refine ⟨f, { f with file := file }, m, hf, afterAppend_outcome h, rfl, rfl, rfl, hbytes, hcount,
    ?_⟩
  exact fun hnot => hend.elim And.left fun hstall => absurd hstall.2 hnot

theorem flush_eq_ok_iff :
    s.flush = .ok u ↔ ∃ f, s.file = some f ∧ u = { s with file := some f.flush } := by
  unfold flush
  split
  · simp_all
  · next f hf => simp [hf, eq_comm]

/-- What no call changes. -/
structure Frame (s u : LogFile) : Prop where
  basename : u.basename = s.basename
  rollSize : u.rollSize = s.rollSize
  flushInterval : u.flushInterval = s.flushInterval
  checkEveryN : u.checkEveryN = s.checkEveryN

theorem Outcome.frame {g : OpenedFile} (h : Outcome host e s g u) : Frame s u := by
  cases h <;> exact ⟨rfl, rfl, rfl, rfl⟩

/-- The file that was written to is the last one, or the last but one before a new file. -/
theorem Outcome.files {g : OpenedFile} (h : Outcome host e s g u) :
    ∃ g' rest, u.files = s.closed ++ g' :: rest ∧ g'.name = g.name ∧ g'.openedAt = g.openedAt ∧
      g'.file = g.file ∧
      ((rest = [] ∧ u.lastRoll = s.lastRoll ∧ u.startOfPeriod = s.startOfPeriod ∧
          u.file = some g') ∨
        (rest = [.new (getLogFileName host s.basename e.rollNow) e.rollNow] ∧
          s.lastRoll < e.rollNow ∧
          (∃ count, u = { s with file := some g, count := count }.reset host e.rollNow) ∧
          (s.rollSize < g.file.writtenBytes ∨ startOfDay e.now ≠ s.startOfPeriod))) := by
  cases h with
  | rolled count hcount hlater hwhy =>
    refine ⟨g.flush, _, ?_, rfl, rfl, rfl, .inr ⟨rfl, hlater, ⟨count, rfl⟩, hwhy⟩⟩
    simp [LogFile.files, reset]
  | held count hcount hearly => exact ⟨g, [], rfl, rfl, rfl, rfl, .inl ⟨rfl, rfl, rfl, rfl⟩⟩
  | counted hsize hfew => exact ⟨g, [], rfl, rfl, rfl, rfl, .inl ⟨rfl, rfl, rfl, rfl⟩⟩
  | flushed hsize hday => exact ⟨g.flush, [], rfl, rfl, rfl, rfl, .inl ⟨rfl, rfl, rfl, rfl⟩⟩
  | fresh hsize hrecent => exact ⟨g, [], rfl, rfl, rfl, rfl, .inl ⟨rfl, rfl, rfl, rfl⟩⟩

theorem Frame.run {ls : List LogFileStep} (hrun : (logFile host).Run s ls u) : Frame s u := by
  refine hrun.invariant ⟨rfl, rfl, rfl, rfl⟩ fun t l v ht _ hx => ?_
  have hstep : Frame t v := by
    cases l with
    | append logline e =>
      obtain ⟨f, g, m, -, hout, -⟩ := append_unlocked_outcome hx
      exact hout.frame
    | flush =>
      obtain ⟨f, -, rfl⟩ := flush_eq_ok_iff.mp hx
      exact ⟨rfl, rfl, rfl, rfl⟩
  exact ⟨hstep.basename.trans ht.basename, hstep.rollSize.trans ht.rollSize,
    hstep.flushInterval.trans ht.flushInterval, hstep.checkEveryN.trans ht.checkEveryN⟩

/-- A log file whose first file was opened, or none, because the clock stood before the epoch. -/
theorem new_cases {basename : Bytes} {rollSize flushInterval checkEveryN now : ℤ} {opens : Bool}
    (h : new host basename rollSize flushInterval checkEveryN now opens = .ok u) :
    (0 < now ∧ u = (⟨basename, rollSize, flushInterval, checkEveryN, 0, 0, 0, 0, [], none⟩ :
      LogFile).reset host now) ∨
    u = ⟨basename, rollSize, flushInterval, checkEveryN, 0, 0, 0, 0, [], none⟩ := by
  obtain ⟨-, h⟩ := check_bind_eq_ok_iff.mp h
  obtain ⟨⟨v, b⟩, hroll, hv⟩ := bind_eq_ok_iff.mp h
  obtain rfl := Except.ok.inj hv
  exact (rollFile_cases hroll).imp id And.right

theorem files_of_some {f : OpenedFile} (h : s.file = some f) : s.files = s.closed ++ [f] := by
  simp [files, h]

end LogFile

/-! ## The lines -/

/-- A file that holds these lines, and has counted them. -/
def AppendFile.ofLines (lines : List Bytes) : AppendFile := ⟨lines.flatten, lines.flatten.length⟩

theorem AppendFile.eq_ofLines_concat {f : AppendFile} {lines : List Bytes} {line : Bytes}
    (hfile : f.file = (ofLines lines).file ++ line)
    (hwritten : f.writtenBytes = (ofLines lines).writtenBytes + line.length) :
    f = ofLines (lines ++ [line]) := by
  obtain ⟨file, writtenBytes⟩ := f
  simp_all [ofLines]

def LogFileStep.line? : LogFileStep → Option Bytes
  | .append logline _ => some logline
  | .flush => none

/-- The lines of a run, in order. -/
def appendedLines (ls : List LogFileStep) : List Bytes := ls.filterMap LogFileStep.line?

namespace LogFile

variable {host : LogHost} {s u : LogFile}

/-- The lines are spread over the files in order, each whole in one of them. -/
def Holds (s : LogFile) (lines : List Bytes) : Prop :=
  ∃ parts : List (List Bytes), parts.flatten = lines ∧
    s.files.map OpenedFile.file = parts.map AppendFile.ofLines

theorem Holds.flush {lines : List Bytes} (h : s.Holds lines) (hx : s.flush = .ok u) :
    u.Holds lines := by
  obtain ⟨f, hf, rfl⟩ := flush_eq_ok_iff.mp hx
  obtain ⟨parts, hparts, hfiles⟩ := h
  refine ⟨parts, hparts, ?_⟩
  rw [← hfiles, files_of_some hf, files_of_some rfl, List.map_append, List.map_append]
  rfl

/-- A line is added to the last part, and a new file adds an empty one. -/
theorem Holds.append {lines : List Bytes} (h : s.Holds lines) {e : LogEnv} {logline : Bytes}
    (hdisk : ¬e.fwrite.Stalls logline.length) (hx : s.append_unlocked host e logline = .ok u) :
    u.Holds (lines ++ [logline]) := by
  obtain ⟨f, g, m, hf, hout, -, -, -, hbytes, hwritten, hm⟩ := append_unlocked_outcome hx
  obtain ⟨parts, rfl, hfiles⟩ := h
  rw [files_of_some hf, List.map_append] at hfiles
  obtain ⟨closed, last, rfl, hclosed, hlast⟩ := List.append_eq_map_iff.mp hfiles
  obtain ⟨part, rfl⟩ : ∃ part, last = [part] := by
    rw [← List.length_eq_one_iff, ← last.length_map, hlast]
    rfl
  have hg : g.file = .ofLines (part ++ [logline]) := by
    have hfile : f.file = .ofLines part := (List.singleton_inj.mp hlast).symm
    rw [hm hdisk, List.take_length, OpenedFile.bytes, OpenedFile.bytes, hfile] at hbytes
    rw [hfile] at hwritten
    exact AppendFile.eq_ofLines_concat hbytes hwritten
  obtain ⟨g', rest, hu, -, -, hg', hrest⟩ := hout.files
  obtain ⟨new, hnew, hnil⟩ : ∃ new : List (List Bytes), new.flatten = [] ∧
      rest.map OpenedFile.file = new.map AppendFile.ofLines := by
    rcases hrest with ⟨rfl, -⟩ | ⟨rfl, -⟩
    · exact ⟨[], rfl, rfl⟩
    · exact ⟨[[]], rfl, rfl⟩
  refine ⟨closed ++ (part ++ [logline]) :: new, ?_, ?_⟩
  · simp [hnew]
  · rw [hu, List.map_append, List.map_cons, hg', hg, hnil, ← hclosed, List.map_append,
      List.map_cons]

theorem Holds.run {lines : List Bytes} (h : s.Holds lines) {ls : List LogFileStep} {t : LogFile}
    (hrun : (logFile host).Run s ls t)
    (hdisk : ∀ logline e, .append logline e ∈ ls → ¬e.fwrite.Stalls logline.length) :
    t.Holds (lines ++ appendedLines ls) := by
  induction hrun with
  | nil => rwa [appendedLines, List.filterMap_nil, List.append_nil]
  | @snoc ls t u l _ _ hx ih =>
    have ht := ih fun logline e hmem => hdisk logline e (List.mem_append_left _ hmem)
    have hlines : appendedLines (ls ++ [l]) = appendedLines ls ++ l.line?.toList := by
      rw [appendedLines, List.filterMap_append]
      cases l <;> rfl
    rw [hlines, ← List.append_assoc]
    cases l with
    | append logline e =>
      exact ht.append (hdisk logline e (List.mem_append_right _ List.mem_cons_self)) hx
    | flush =>
      rw [LogFileStep.line?, Option.toList_none, List.append_nil]
      exact ht.flush hx

theorem Holds.new {basename : Bytes} {rollSize flushInterval checkEveryN now : ℤ} {opens : Bool}
    (h : LogFile.new host basename rollSize flushInterval checkEveryN now opens = .ok s) :
    s.Holds [] := by
  rcases new_cases h with ⟨-, rfl⟩ | rfl
  · exact ⟨[[]], rfl, rfl⟩
  · exact ⟨[], rfl, rfl⟩

end LogFile

/-- Whatever the clock shows, and as long as the disk takes what it is given : the lines are spread
over the files in their order, and no line is lost, repeated or divided between two files. The
bytes of a file are what is counted for it. -/
theorem log_file_lines {host : LogHost} {basename : Bytes}
    {rollSize flushInterval checkEveryN now : ℤ} {opens : Bool} {s t : LogFile}
    (hnew : LogFile.new host basename rollSize flushInterval checkEveryN now opens = .ok s)
    {ls : List LogFileStep} (hrun : (logFile host).Run s ls t)
    (hdisk : ∀ logline e, .append logline e ∈ ls → ¬e.fwrite.Stalls logline.length) :
    ∃ parts : List (List Bytes), parts.flatten = appendedLines ls ∧
      t.files.map OpenedFile.file = parts.map AppendFile.ofLines :=
  (LogFile.Holds.new hnew).run hrun hdisk

/-- A disk that takes all it is given. -/
def Fwrite.all : Fwrite := ⟨fun _ count => count, fun _ count => Nat.le_refl count⟩

theorem Fwrite.not_stalls_all (len : ℕ) : ¬Fwrite.all.Stalls len := by
  rintro ⟨k, hk, hstall⟩
  have hall : Fwrite.all.accepted len 1 = len := Nat.zero_add _
  exact Fwrite.not_stallsAt_of_all hall hk hstall

/-- One call in the second `now`. -/
def LogEnv.inSecond (now : ℤ) : LogEnv := ⟨.all, now, now, true⟩

/-- A process whose local time is UTC+8. -/
def LogHost.beijing : LogHost := ⟨fun now => utc (now + 28800).toNat, ascii "host", 42⟩

/-- The second line makes the file too large and the third one stands in a new file. -/
theorem log_file_lines_two_files : ∃ s t,
    LogFile.new .beijing (ascii "log") 3 3 1024 100 true = .ok s ∧
    (logFile .beijing).Run s [.append (ascii "ab") (.inSecond 100), .flush,
      .append (ascii "cd") (.inSecond 101), .append (ascii "ef") (.inSecond 101)] t ∧
    t.files.map OpenedFile.bytes = [ascii "abcd", ascii "ef"] ∧
    ∃ parts : List (List Bytes), parts.flatten = [ascii "ab", ascii "cd", ascii "ef"] ∧
      t.files.map OpenedFile.file = parts.map AppendFile.ofLines := by
  obtain ⟨s, t, hnew, hrun, hfiles⟩ : ∃ s t,
      LogFile.new .beijing (ascii "log") 3 3 1024 100 true = .ok s ∧
      (logFile .beijing).Run s [.append (ascii "ab") (.inSecond 100), .flush,
        .append (ascii "cd") (.inSecond 101), .append (ascii "ef") (.inSecond 101)] t ∧
      t.files.map OpenedFile.bytes = [ascii "abcd", ascii "ef"] := ⟨_, _, rfl, .of_play rfl, rfl⟩
  refine ⟨s, t, hnew, hrun, hfiles, log_file_lines hnew hrun fun logline e hmem => ?_⟩
  have he : e.fwrite = .all := by
    simp only [List.mem_cons, LogFileStep.append.injEq, reduceCtorEq, false_or, List.not_mem_nil,
      or_false] at hmem
    rcases hmem with ⟨-, rfl⟩ | ⟨-, rfl⟩ | ⟨-, rfl⟩ <;> rfl
  rw [he]
  exact Fwrite.not_stalls_all _

/-! ## Rolling -/

/-- A test of the period reads a second that is not before the last roll, and the second that
`rollFile` reads is not before it. -/
def ClockForward (s : LogFile) : LogFileStep → Prop
  | .append _ e => s.lastRoll ≤ e.now ∧ e.now ≤ e.rollNow
  | .flush => True

instance (s : LogFile) : ∀ l, Decidable (ClockForward s l)
  | .append _ e => inferInstanceAs (Decidable (s.lastRoll ≤ e.now ∧ e.now ≤ e.rollNow))
  | .flush => isTrue trivial

theorem startOfDay_mono {a b : ℤ} (ha : 0 ≤ a) (h : a ≤ b) : startOfDay a ≤ startOfDay b := by
  unfold startOfDay kRollPerSeconds
  rw [Int.tdiv_eq_ediv_of_nonneg ha, Int.tdiv_eq_ediv_of_nonneg (Int.le_trans ha h)]
  omega

/-- A file is followed by one of a later day, unless it was too large. -/
def Follows (rollSize : ℤ) (f g : OpenedFile) : Prop :=
  rollSize < f.file.writtenBytes ∨ startOfDay f.openedAt < startOfDay g.openedAt

namespace LogFile

variable {host : LogHost} {s u : LogFile}

/-- The names of the files, with the seconds they were opened in. -/
def names (s : LogFile) : List (Bytes × ℤ) := s.files.map fun f => (f.name, f.openedAt)

/-- The files are named by the seconds they were opened in, which increase up to `lastRoll_`. -/
structure Opened (host : LogHost) (s : LogFile) : Prop where
  nonneg : 0 ≤ s.lastRoll
  period : s.startOfPeriod = startOfDay s.lastRoll
  current : ∀ f ∈ s.file, f.openedAt = s.lastRoll
  named : ∀ n ∈ s.names, n.1 = getLogFileName host s.basename n.2
  le : ∀ n ∈ s.names, n.2 ≤ s.lastRoll
  increasing : (s.names.map Prod.snd).Pairwise (· < ·)

theorem Opened.new {basename : Bytes} {rollSize flushInterval checkEveryN now : ℤ} {opens : Bool}
    (h : LogFile.new host basename rollSize flushInterval checkEveryN now opens = .ok s) :
    s.Opened host := by
  rcases new_cases h with ⟨hnow, rfl⟩ | rfl
  · refine ⟨Int.le_of_lt hnow, rfl, ?_, ?_, ?_, ?_⟩ <;>
      simp [reset, names, files, OpenedFile.new]
  · refine ⟨Int.le_refl 0, rfl, ?_, ?_, ?_, ?_⟩ <;> simp [names, files]

theorem Opened.flush (h : s.Opened host) (hx : s.flush = .ok u) : u.Opened host := by
  obtain ⟨f, hf, rfl⟩ := flush_eq_ok_iff.mp hx
  have hnames : ({ s with file := some f.flush } : LogFile).names = s.names := by
    rw [names, names, files_of_some hf, files_of_some rfl, List.map_append, List.map_append]
    rfl
  refine ⟨h.nonneg, h.period, ?_, by rw [hnames]; exact h.named, by rw [hnames]; exact h.le,
    by rw [hnames]; exact h.increasing⟩
  rintro f' ⟨rfl⟩
  exact h.current f hf

theorem Opened.append (h : s.Opened host) {e : LogEnv} {logline : Bytes}
    (hx : s.append_unlocked host e logline = .ok u) : u.Opened host := by
  obtain ⟨f, g, m, hf, hout, hname, hopened, -⟩ := append_unlocked_outcome hx
  obtain ⟨g', rest, hu, hname', hopened', -, hrest⟩ := hout.files
  have hnames : u.names = s.names ++ rest.map fun f => (f.name, f.openedAt) := by
    rw [names, names, hu, files_of_some hf, List.map_append, List.map_append, List.map_cons, hname',
      hopened', hname, hopened, List.append_assoc]
    rfl
  rcases hrest with ⟨rfl, hroll, hperiod, hfile⟩ | ⟨rfl, hlater, ⟨count, rfl⟩, -⟩
  · rw [List.map_nil, List.append_nil] at hnames
    refine ⟨hroll ▸ h.nonneg, by rw [hroll, hperiod]; exact h.period, ?_, ?_, ?_, ?_⟩
    · rw [hfile, hroll]
      rintro f' ⟨rfl⟩
      exact (hopened'.trans hopened).trans (h.current f hf)
    · rw [hnames, hout.frame.basename]
      exact h.named
    · rw [hnames, hroll]
      exact h.le
    · rw [hnames]
      exact h.increasing
  · refine ⟨Int.le_trans h.nonneg (Int.le_of_lt hlater), rfl, ?_, ?_, ?_, ?_⟩
    · rintro f' ⟨rfl⟩
      rfl
    · rw [hnames]
      intro n hn
      rcases List.mem_append.mp hn with hn | hn
      · exact h.named n hn
      · obtain rfl := List.mem_singleton.mp hn
        rfl
    · rw [hnames]
      intro n hn
      rcases List.mem_append.mp hn with hn | hn
      · exact Int.le_trans (h.le n hn) (Int.le_of_lt hlater)
      · obtain rfl := List.mem_singleton.mp hn
        exact Int.le_refl _
    · rw [hnames, List.map_append, List.pairwise_append]
      refine ⟨h.increasing, List.pairwise_singleton _ _, fun a ha b hb => ?_⟩
      obtain ⟨n, hn, rfl⟩ := List.mem_map.mp ha
      obtain rfl := List.mem_singleton.mp hb
      exact Int.lt_of_le_of_lt (h.le n hn) hlater

theorem Opened.run (h : s.Opened host) {ls : List LogFileStep} {t : LogFile}
    (hrun : (logFile host).Run s ls t) : t.Opened host := by
  refine hrun.invariant h fun t l u ht _ hx => ?_
  cases l with
  | append logline e => exact ht.append hx
  | flush => exact ht.flush hx

/-- Every file follows the one before it. -/
theorem follows_step (hopened : s.Opened host) (h : s.files.IsChain (Follows s.rollSize))
    {l : LogFileStep} (he : ClockForward s l) (hx : (logFile host).exec s l = .ok u) :
    u.files.IsChain (Follows u.rollSize) := by
  -- Whether a file may stand in the chain depends on the second it was opened in.
  have hreplace : ∀ {f g : OpenedFile}, g.openedAt = f.openedAt →
      (s.closed ++ [f]).IsChain (Follows s.rollSize) →
      (s.closed ++ [g]).IsChain (Follows s.rollSize) := by
    intro f g hfg hchain
    rw [List.isChain_append] at hchain ⊢
    refine ⟨hchain.1, List.isChain_singleton g, fun a ha b hb => ?_⟩
    obtain rfl : g = b := by simpa using hb
    have hfollows := hchain.2.2 a ha f (by simp)
    rwa [Follows, ← hfg] at hfollows
  cases l with
  | flush =>
    obtain ⟨f, hf, rfl⟩ := flush_eq_ok_iff.mp hx
    rw [files_of_some hf] at h
    exact hreplace (show f.flush.openedAt = f.openedAt from rfl) h
  | append logline e =>
    obtain ⟨f, g, m, hf, hout, -, hg, -⟩ := append_unlocked_outcome hx
    obtain ⟨g', rest, hu, -, hg', hfile, hrest⟩ := hout.files
    rw [files_of_some hf] at h
    rw [hu, hout.frame.rollSize]
    have hlast := hreplace (hg'.trans hg) h
    rcases hrest with ⟨rfl, -⟩ | ⟨rfl, hlater, -, hwhy⟩
    · exact hlast
    · refine List.isChain_append_cons_cons.mpr ⟨hlast, ?_, List.isChain_singleton _⟩
      rw [Follows, hfile]
      refine hwhy.imp id fun hday => ?_
      have hat : g'.openedAt = s.lastRoll := (hg'.trans hg).trans (hopened.current f hf)
      have hnow := startOfDay_mono hopened.nonneg he.1
      have hroll := startOfDay_mono (Int.le_trans hopened.nonneg he.1) he.2
      rw [hat]
      rw [hopened.period] at hday
      exact Int.lt_of_lt_of_le (lt_of_le_of_ne hnow hday.symm) hroll

end LogFile

/-- When no call reads a second before the last roll, and no `rollFile` one before that of its
`append` : the files were opened in increasing seconds, and a file is followed by another one if it
was larger than `rollSize_`, or on a later day. If `rollSize_` is not negative, an `append` in a
later second than the last roll leaves a current file that is not too large. -/
theorem log_file_rolls {host : LogHost} {basename : Bytes}
    {rollSize flushInterval checkEveryN now : ℤ} {opens : Bool} {s t : LogFile}
    (hnew : LogFile.new host basename rollSize flushInterval checkEveryN now opens = .ok s)
    {ls : List LogFileStep} (hrun : ((logFile host).restrict ClockForward).Run s ls t) :
    (t.files.map OpenedFile.openedAt).Pairwise (· < ·) ∧
    t.files.IsChain (fun f g => rollSize < f.file.writtenBytes ∨
      startOfDay f.openedAt < startOfDay g.openedAt) ∧
    (0 ≤ rollSize → ∀ logline e u, (logFile host).exec t (.append logline e) = .ok u →
      t.lastRoll < e.rollNow → ∀ f ∈ u.file, f.file.writtenBytes ≤ rollSize) := by
  obtain ⟨hsize, hfiles⟩ : s.rollSize = rollSize ∧ s.files.IsChain (Follows s.rollSize) := by
    rcases LogFile.new_cases hnew with ⟨-, rfl⟩ | rfl
    · exact ⟨rfl, List.isChain_singleton _⟩
    · exact ⟨rfl, List.isChain_nil⟩
  have hchain : t.files.IsChain (Follows t.rollSize) := by
    have hboth : t.Opened host ∧ t.files.IsChain (Follows t.rollSize) := by
      refine @Machine.Run.invariant _ _ _ _
        (fun t : LogFile => t.Opened host ∧ t.files.IsChain (Follows t.rollSize)) _ _ _ hrun
        ⟨.new hnew, hfiles⟩ fun t l u ht he hx => ⟨?_, LogFile.follows_step ht.1 ht.2 he.2 hx⟩
      exact ht.1.run (.snoc .nil he.1 hx)
    exact hboth.2
  have hopened := (LogFile.Opened.new hnew).run hrun.of_restrict
  have hframe := (LogFile.Frame.run hrun.of_restrict).rollSize.trans hsize
  rw [hframe] at hchain
  refine ⟨?_, hchain, fun hroom logline e u hx hlater f hf => ?_⟩
  · have hincreasing := hopened.increasing
    rwa [LogFile.names, List.map_map] at hincreasing
  · obtain ⟨f₀, g, m, -, hout, -⟩ := LogFile.append_unlocked_outcome hx
    rw [← hframe]
    cases hout with
    | rolled count hcount _ hwhy =>
      obtain ⟨rfl⟩ := hf
      rw [hframe]
      exact hroom
    | held count hcount hearly => exact absurd hlater (Int.not_lt.mpr hearly)
    | counted hsize hfew =>
      obtain ⟨rfl⟩ := hf
      exact hsize
    | flushed hsize hday =>
      obtain ⟨rfl⟩ := hf
      exact hsize
    | fresh hsize hrecent =>
      obtain ⟨rfl⟩ := hf
      exact hsize

/-- A file of 4 bytes is followed by another one, and this one by one of the next day. -/
theorem log_file_rolls_next_day : ∃ s t,
    LogFile.new .beijing (ascii "log") 3 3 1 100 true = .ok s ∧
    ((logFile .beijing).restrict ClockForward).Run s [.append (ascii "abcd") (.inSecond 101),
      .append (ascii "e") (.inSecond 86400), .append (ascii "f") (.inSecond 86401)] t ∧
    t.files.map OpenedFile.openedAt = [100, 101, 86400] ∧
    t.files.IsChain fun f g => 3 < (f.file.writtenBytes : ℤ) ∨
      startOfDay f.openedAt < startOfDay g.openedAt := by
  obtain ⟨s, t, hnew, hrun, hfiles⟩ : ∃ s t,
      LogFile.new .beijing (ascii "log") 3 3 1 100 true = .ok s ∧
      ((logFile .beijing).restrict ClockForward).Run s [.append (ascii "abcd") (.inSecond 101),
        .append (ascii "e") (.inSecond 86400), .append (ascii "f") (.inSecond 86401)] t ∧
      t.files.map OpenedFile.openedAt = [100, 101, 86400] := ⟨_, _, rfl, .of_play rfl, rfl⟩
  exact ⟨s, t, hnew, hrun, hfiles, (log_file_rolls hnew hrun).2.1⟩

/-! ## Names -/

/-- Local time is `offset` seconds ahead of UTC, all the year round. -/
def FixedZone (localtime_r : ℤ → Tm) (offset : ℤ) : Prop :=
  ∀ n : ℕ, localtime_r (n - offset) = utc n

/-- The text of the local second `n` in a name, without the dots around it. -/
def stampFields (n : ℕ) : Bytes :=
  padded 4 (Date.ofDay (n / 86400)).year ++ (padded 2 (Date.ofDay (n / 86400)).month ++
    (padded 2 (Date.ofDay (n / 86400)).day ++ (ascii "-" ++ (padded 2 (n % 86400 / 3600) ++
      (padded 2 (n % 3600 / 60) ++ padded 2 (n % 60))))))

theorem signedDecimal_year {n : ℕ} (h : 1000 ≤ n) : signedDecimal n = padded 4 n := by
  have hlen : ¬(decimal n).length ≤ 3 := by
    rw [length_decimal_le_iff (by decide)]
    omega
  have hfull : 4 - (decimal n).length = 0 := by omega
  rw [signedDecimal, if_neg (Int.not_lt.mpr (Int.natCast_nonneg n)), Int.natAbs_natCast, padded,
    padLeft, hfull, List.replicate_zero, List.nil_append]

theorem stamp_utc (n : ℕ) : (utc n).stamp = ascii "." ++ (stampFields n ++ ascii ".") := by
  have hyear := Date.year_ofDay (n / 86400)
  have hy : (utc n).tm_year + 1900 = ((Date.ofDay (n / 86400)).year : ℕ) := by
    simp only [utc]
    omega
  have hm : (utc n).tm_mon + 1 = ((Date.ofDay (n / 86400)).month : ℕ) := by
    simp only [utc]
    omega
  rw [Tm.stamp, hy, hm, signedDecimal_year (by omega)]
  simp only [utc, zeroPadded_natCast, stampFields, List.append_assoc]

theorem length_stampFields {n : ℕ} (hyear : (Date.ofDay (n / 86400)).year < 10 ^ 4) :
    (stampFields n).length = 15 := by
  have htwo : ∀ n < 100, (padded 2 n).length = 2 := fun n hn => length_padded (by decide) hn
  have hmonth := (Date.ofDay (n / 86400)).month_le
  have hday := (Date.ofDay (n / 86400)).day_le
  have hdays := daysInMonth_le (Date.ofDay (n / 86400)).year (Date.ofDay (n / 86400)).month
  have hsep : (ascii "-").length = 1 := rfl
  simp only [stampFields, List.length_append, length_padded (by decide) hyear, hsep,
    htwo _ (show (Date.ofDay (n / 86400)).month < 100 by omega),
    htwo _ (show (Date.ofDay (n / 86400)).day < 100 by omega),
    htwo _ (show n % 86400 / 3600 < 100 by omega), htwo _ (show n % 3600 / 60 < 100 by omega),
    htwo _ (show n % 60 < 100 by omega)]

/-- A later second has a later text. -/
theorem stampFields_lt {m n : ℕ} (hyear : (Date.ofDay (n / 86400)).year < 10 ^ 4) (h : m < n) :
    stampFields m < stampFields n := by
  have hmonth := (Date.ofDay (n / 86400)).month_le
  have hday := (Date.ofDay (n / 86400)).day_le
  have hdays := daysInMonth_le (Date.ofDay (n / 86400)).year (Date.ofDay (n / 86400)).month
  have htwo : ∀ {a b : ℕ} {x y : Bytes}, b < 100 → (a < b ∨ a = b ∧ x < y) →
      padded 2 a ++ x < padded 2 b ++ y := fun hb h => padded_append_lt (by decide) hb h
  refine padded_append_lt (by decide) hyear ?_
  by_cases hdate : m / 86400 < n / 86400
  · refine (Date.ofDay_before hdate).imp id fun ⟨hy, hdate⟩ => ⟨hy, htwo (by omega) ?_⟩
    exact hdate.imp id fun ⟨hm, hd⟩ => ⟨hm, htwo (by omega) (.inl hd)⟩
  · have hsame : m / 86400 = n / 86400 := by omega
    rw [hsame]
    refine .inr ⟨rfl, htwo (by omega) (.inr ⟨rfl, htwo (by omega) (.inr ⟨rfl, ?_⟩)⟩)⟩
    refine List.append_left_lt (htwo (by omega) ?_)
    by_cases hhour : m % 86400 / 3600 < n % 86400 / 3600
    · exact .inl hhour
    · refine .inr ⟨by omega, htwo (by omega) ?_⟩
      by_cases hmin : m % 3600 / 60 < n % 3600 / 60
      · exact .inl hmin
      · exact .inr ⟨by omega, padded_lt_padded (by decide) (by omega) (by omega)⟩

namespace LogFile

variable {host : LogHost}

theorem getLogFileName_eq {offset : ℤ} (hzone : FixedZone host.localtime_r offset)
    (basename : Bytes) {n : ℕ} (hyear : (Date.ofDay (n / 86400)).year < 10 ^ 4) :
    getLogFileName host basename (n - offset) = basename ++ (ascii "." ++ (stampFields n ++
      (ascii "." ++ (host.hostname ++ (snprintf 32 (ascii "." ++ signedDecimal host.pid) ++
        ascii ".log"))))) := by
  have hlen := length_stampFields hyear
  have hdot : (ascii ".").length = 1 := rfl
  rw [getLogFileName, hzone, stamp_utc, strftime, if_pos (by simp [hlen, hdot])]
  simp only [List.append_assoc]

theorem getLogFileName_lt {offset : ℤ} (hzone : FixedZone host.localtime_r offset)
    (basename : Bytes) {a b : ℤ} (ha : 0 ≤ a + offset) (hlt : a < b)
    (hyear : (Date.ofDay ((b + offset).toNat / 86400)).year < 10 ^ 4) :
    getLogFileName host basename a < getLogFileName host basename b := by
  obtain ⟨m, hm⟩ := Int.eq_ofNat_of_zero_le ha
  obtain ⟨n, hn⟩ := Int.eq_ofNat_of_zero_le (show 0 ≤ b + offset by omega)
  obtain rfl : a = m - offset := by omega
  obtain rfl : b = n - offset := by omega
  rw [hn, Int.toNat_natCast] at hyear
  have hyear' : (Date.ofDay (m / 86400)).year < 10 ^ 4 := by
    rcases Nat.eq_or_lt_of_le (show m / 86400 ≤ n / 86400 by omega) with heq | hlt
    · rwa [heq]
    · have hbefore := Date.ofDay_before hlt
      unfold Date.Before at hbefore
      omega
  rw [getLogFileName_eq hzone basename hyear', getLogFileName_eq hzone basename hyear]
  refine List.append_left_lt (List.append_left_lt (append_lt_append ?_ ?_))
  · rw [length_stampFields hyear', length_stampFields hyear]
  · exact stampFields_lt hyear (by omega)

end LogFile

/-- In a zone without summer time, when the local time is from 1970 on and before the year 10000 :
the names of the files increase. So no file is opened twice, and the files in the order of their
names are the log in its order. -/
theorem log_file_names {host : LogHost} {basename : Bytes}
    {rollSize flushInterval checkEveryN now offset : ℤ} {opens : Bool} {s t : LogFile}
    (hnew : LogFile.new host basename rollSize flushInterval checkEveryN now opens = .ok s)
    {ls : List LogFileStep} (hrun : (logFile host).Run s ls t)
    (hzone : FixedZone host.localtime_r offset)
    (hyears : ∀ f ∈ t.files, 0 ≤ f.openedAt + offset ∧
      (Date.ofDay ((f.openedAt + offset).toNat / 86400)).year < 10 ^ 4) :
    (t.files.map OpenedFile.name).Pairwise (· < ·) := by
  have hopened := (LogFile.Opened.new hnew).run hrun
  have hincreasing := hopened.increasing
  rw [LogFile.names, List.map_map, List.pairwise_map] at hincreasing
  rw [List.pairwise_map]
  refine hincreasing.imp_of_mem fun {f g} hf hg hlt => ?_
  have hname : ∀ f ∈ t.files, f.name = LogFile.getLogFileName host t.basename f.openedAt :=
    fun f hf => hopened.named (f.name, f.openedAt) (List.mem_map_of_mem hf)
  rw [hname f hf, hname g hg]
  exact LogFile.getLogFileName_lt hzone t.basename (hyears f hf).1 hlt (hyears g hg).2

/-- Two files of one day. -/
theorem log_file_names_two_files : ∃ s t,
    LogFile.new .beijing (ascii "log") 3 3 1024 100 true = .ok s ∧
    (logFile .beijing).Run s [.append (ascii "abcd") (.inSecond 3600)] t ∧
    t.files.map OpenedFile.name = [ascii "log.19700101-080140.host.42.log",
      ascii "log.19700101-090000.host.42.log"] ∧
    (t.files.map OpenedFile.name).Pairwise (· < ·) := by
  obtain ⟨s, t, hnew, hrun, hfiles, hyears⟩ : ∃ s t,
      LogFile.new .beijing (ascii "log") 3 3 1024 100 true = .ok s ∧
      (logFile .beijing).Run s [.append (ascii "abcd") (.inSecond 3600)] t ∧
      t.files.map OpenedFile.name = [ascii "log.19700101-080140.host.42.log",
        ascii "log.19700101-090000.host.42.log"] ∧
      ∀ f ∈ t.files, 0 ≤ f.openedAt + 28800 ∧
        (Date.ofDay ((f.openedAt + 28800).toNat / 86400)).year < 10 ^ 4 :=
    ⟨_, _, rfl, .of_play rfl, by decide, by decide⟩
  have hzone : FixedZone LogHost.beijing.localtime_r 28800 := fun n => by
    simp [LogHost.beijing]
  exact ⟨s, t, hnew, hrun, hfiles, log_file_names hnew hrun hzone hyears⟩

/-! ## Flushing -/

namespace LogFile

variable {host : LogHost} {s t u : LogFile}

/-- All that has been written. -/
def text (s : LogFile) : Bytes := (s.files.map OpenedFile.bytes).flatten

/-- What has left the buffers. -/
def onDisk (s : LogFile) : Bytes := (s.files.map OpenedFile.onDisk).flatten

/-- A closed file has been flushed, and `count_` is less than `checkEveryN_`. -/
structure Flushing (s : LogFile) : Prop where
  closed : s.closed.map OpenedFile.onDisk = s.closed.map OpenedFile.bytes
  current : ∀ f ∈ s.file, f.flushed ≤ f.bytes.length
  nonneg : 0 ≤ s.count

theorem Flushing.new {basename : Bytes} {rollSize flushInterval checkEveryN now : ℤ} {opens : Bool}
    (h : LogFile.new host basename rollSize flushInterval checkEveryN now opens = .ok s) :
    s.Flushing := by
  rcases new_cases h with ⟨-, rfl⟩ | rfl
  · refine ⟨rfl, ?_, Int.le_refl 0⟩
    rintro f ⟨rfl⟩
    exact Nat.zero_le _
  · exact ⟨rfl, fun f hf => (by cases hf), Int.le_refl 0⟩

theorem text_eq {f : OpenedFile} (hf : s.file = some f) :
    s.text = (s.closed.map OpenedFile.bytes).flatten ++ f.bytes := by
  simp [text, files_of_some hf]

theorem Flushing.onDisk_eq (h : s.Flushing) {f : OpenedFile} (hf : s.file = some f) :
    s.onDisk = (s.closed.map OpenedFile.bytes).flatten ++ f.onDisk := by
  simp [onDisk, files_of_some hf, h.closed]

/-- What has been written and what has left the buffers stays, and no file is opened again. -/
structure Grows (s u : LogFile) : Prop where
  flushing : u.Flushing
  text : s.text <+: u.text
  onDisk : s.onDisk <+: u.onDisk
  closed : s.closed.length ≤ u.closed.length

/-- The current file grows and is flushed no less than before. -/
theorem Flushing.replace (h : s.Flushing) {f g : OpenedFile} (hf : s.file = some f)
    (hbytes : f.bytes <+: g.bytes) (hdisk : f.onDisk <+: g.onDisk)
    (hflushed : g.flushed ≤ g.bytes.length) (hclosed : u.closed = s.closed)
    (hfile : u.file = some g) (hcount : 0 ≤ u.count) : Grows s u := by
  have hu : u.Flushing := by
    refine ⟨by rw [hclosed]; exact h.closed, ?_, hcount⟩
    rw [hfile]
    rintro g' ⟨rfl⟩
    exact hflushed
  refine ⟨hu, ?_, ?_, by rw [hclosed]⟩
  · rw [text_eq hf, text_eq hfile, hclosed]
    exact (List.prefix_append_right_inj _).mpr hbytes
  · rw [h.onDisk_eq hf, hu.onDisk_eq hfile, hclosed]
    exact (List.prefix_append_right_inj _).mpr hdisk

/-- The current file is closed, and all there is has left the buffers. -/
theorem Flushing.reset (h : s.Flushing) {g : OpenedFile} (hg : s.file = some g) (host : LogHost)
    (now : ℤ) :
    (s.reset host now).Flushing ∧ (s.reset host now).onDisk = s.text ∧
      (s.reset host now).text = s.text := by
  have hu : (s.reset host now).Flushing := by
    refine ⟨?_, ?_, h.nonneg⟩
    · simp [LogFile.reset, hg, h.closed]
    · rintro f ⟨rfl⟩
      exact Nat.zero_le _
  refine ⟨hu, ?_, ?_⟩
  · rw [hu.onDisk_eq rfl, text_eq hg]
    simp [LogFile.reset, hg]
  · rw [text_eq rfl, text_eq hg]
    simp [LogFile.reset, hg]

/-- A line is written to the current file. -/
theorem Flushing.written (h : s.Flushing) {f g : OpenedFile} (hf : s.file = some f) {part : Bytes}
    (hflushed : g.flushed = f.flushed) (hbytes : g.bytes = f.bytes ++ part) (count : ℤ)
    (hcount : 0 ≤ count) : Grows s { s with file := some g, count := count } := by
  have hcur : f.flushed ≤ f.bytes.length := h.current f hf
  have hdisk : g.onDisk = f.onDisk := by
    rw [OpenedFile.onDisk, OpenedFile.onDisk, hbytes, hflushed, List.take_append_of_le_length hcur]
  refine h.replace hf (hbytes ▸ List.prefix_append _ _) (hdisk ▸ List.prefix_rfl) ?_ rfl rfl hcount
  rw [hflushed, hbytes, List.length_append]
  omega

/-- The current file is flushed. -/
theorem Flushing.flushed (h : s.Flushing) {f : OpenedFile} (hf : s.file = some f)
    (hclosed : u.closed = s.closed) (hfile : u.file = some f.flush) (hcount : 0 ≤ u.count) :
    Grows s u ∧ u.onDisk = s.text := by
  have hdisk : f.onDisk <+: f.flush.onDisk := by
    rw [f.onDisk_flush]
    exact List.take_prefix _ _
  have hgrows : Grows s u :=
    h.replace hf (show f.bytes <+: f.flush.bytes from List.prefix_rfl) hdisk (Nat.le_refl _) hclosed
      hfile hcount
  refine ⟨hgrows, ?_⟩
  rw [hgrows.flushing.onDisk_eq hfile, text_eq hf, hclosed, f.onDisk_flush]

theorem Grows.trans (h : Grows s t) (h' : Grows t u) : Grows s u :=
  ⟨h'.flushing, h.text.trans h'.text, h.onDisk.trans h'.onDisk, h.closed.trans h'.closed⟩

/-- What an `append` leaves, and when all that was there before has left the buffers. -/
theorem Flushing.append (h : s.Flushing) {e : LogEnv} {logline : Bytes}
    (hx : s.append_unlocked host e logline = .ok u) :
    Grows s u ∧ (e.rollNow ≤ s.lastRoll ∨ e.now - s.lastFlush ≤ s.flushInterval ∨
      (u.closed = s.closed ∧ u.lastRoll = s.lastRoll ∧ u.lastFlush = s.lastFlush ∧
        u.startOfPeriod = s.startOfPeriod ∧ u.count = s.count + 1 ∧ u.count < s.checkEveryN) ∨
      (s.text <+: u.onDisk ∧
        (s.closed.length < u.closed.length ∨ startOfDay e.now = s.startOfPeriod))) := by
  obtain ⟨f, g, m, hf, hout, -, -, hflushed, hbytes, -⟩ := append_unlocked_outcome hx
  have hwritten := h.written hf hflushed hbytes
  have hcount : ∀ {count : ℤ}, count = s.count ∨ count = 0 → 0 ≤ count := by
    rintro count (rfl | rfl)
    · exact h.nonneg
    · exact Int.le_refl 0
  cases hout with
  | rolled count hc hlater hwhy =>
    have hg := hwritten count (hcount hc)
    obtain ⟨hflushing, hdisk, htext⟩ := hg.flushing.reset rfl host e.rollNow
    have hclosed : s.closed.length < ({ s with file := some g, count := count }.reset host
        e.rollNow).closed.length := by simp [LogFile.reset]
    have hprefix : ({ s with file := some g, count := count } : LogFile).onDisk <+:
        ({ s with file := some g, count := count } : LogFile).text := by
      rw [hg.flushing.onDisk_eq rfl, text_eq rfl]
      exact (List.prefix_append_right_inj _).mpr (List.take_prefix _ _)
    exact ⟨⟨hflushing, htext ▸ hg.text, hdisk ▸ hg.onDisk.trans hprefix, Nat.le_of_lt hclosed⟩,
      .inr (.inr (.inr ⟨hdisk ▸ hg.text, .inl hclosed⟩))⟩
  | held count hc hearly => exact ⟨hwritten count (hcount hc), .inl hearly⟩
  | counted hsize hfew =>
    have hnonneg := h.nonneg
    exact ⟨hwritten _ (by omega), .inr (.inr (.inl ⟨rfl, rfl, rfl, rfl, rfl, hfew⟩))⟩
  | flushed hsize hday =>
    have hg := hwritten 0 (Int.le_refl 0)
    obtain ⟨hgrows, hdisk⟩ := hg.flushing.flushed (u := { s with
      file := some g.flush, count := 0, lastFlush := e.now }) rfl rfl rfl (Int.le_refl 0)
    exact ⟨hg.trans hgrows, .inr (.inr (.inr ⟨hdisk ▸ hg.text, .inr hday⟩))⟩
  | fresh hsize hrecent => exact ⟨hwritten 0 (Int.le_refl 0), .inr (.inl hrecent)⟩

theorem Flushing.step (h : s.Flushing) {l : LogFileStep} (hx : (logFile host).exec s l = .ok u) :
    Grows s u := by
  cases l with
  | append logline e => exact (h.append hx).1
  | flush =>
    obtain ⟨f, hf, rfl⟩ := flush_eq_ok_iff.mp hx
    exact (h.flushed (u := { s with file := some f.flush }) hf rfl rfl h.nonneg).1

theorem Flushing.run (h : s.Flushing) {ls : List LogFileStep} (hrun : (logFile host).Run s ls t) :
    Grows s t := by
  refine hrun.invariant ⟨h, List.prefix_rfl, List.prefix_rfl, Nat.le_refl _⟩ fun t l u ht _ hx => ?_
  exact ht.trans (ht.flushing.step hx)

/-- Only lines were counted since `s`. -/
structure Counting (s t : LogFile) (k : ℕ) : Prop where
  closed : t.closed = s.closed
  lastRoll : t.lastRoll = s.lastRoll
  lastFlush : t.lastFlush = s.lastFlush
  startOfPeriod : t.startOfPeriod = s.startOfPeriod
  count : t.count = s.count + k
  few : k = 0 ∨ t.count < s.checkEveryN

/-- Calls that come late enough : either all that was there at the start has left the buffers, and a
file was opened or the clock showed the day of the last roll; or lines were counted only. -/
theorem Flushing.window (h : s.Flushing) {ls : List LogFileStep} (hrun : (logFile host).Run s ls t)
    (hlate : ∀ logline e, .append logline e ∈ ls →
      s.lastRoll < e.rollNow ∧ s.lastFlush + s.flushInterval < e.now) :
    (s.text <+: t.onDisk ∧ (s.closed.length < t.closed.length ∨
      ∃ logline e, .append logline e ∈ ls ∧ startOfDay e.now = s.startOfPeriod)) ∨
    Counting s t (appendedLines ls).length := by
  induction hrun with
  | nil => exact .inr ⟨rfl, rfl, rfl, rfl, (Int.add_zero _).symm, .inl rfl⟩
  | @snoc ls t u l hr he hx ih =>
    have ht := h.run hr
    have hframe := Frame.run hr
    have hgrows := ht.flushing.step hx
    rcases ih fun logline e hmem => hlate logline e (List.mem_append_left _ hmem) with
      ⟨hdisk, hwhy⟩ | hcounting
    · refine .inl ⟨hdisk.trans hgrows.onDisk, hwhy.imp (fun hlt => hlt.trans_le hgrows.closed) ?_⟩
      rintro ⟨logline, e, hmem, hday⟩
      exact ⟨logline, e, List.mem_append_left _ hmem, hday⟩
    · cases l with
      | flush =>
        obtain ⟨f, hf, rfl⟩ := flush_eq_ok_iff.mp hx
        have hlines : appendedLines (ls ++ [.flush]) = appendedLines ls := by
          simp [appendedLines, LogFileStep.line?]
        rw [hlines]
        exact .inr ⟨hcounting.closed, hcounting.lastRoll, hcounting.lastFlush,
          hcounting.startOfPeriod, hcounting.count, hcounting.few⟩
      | append logline e =>
        have hmem : .append logline e ∈ ls ++ [.append logline e] :=
          List.mem_append_right _ List.mem_cons_self
        have hlines : (appendedLines (ls ++ [.append logline e])).length =
            (appendedLines ls).length + 1 := by
          simp [appendedLines, LogFileStep.line?]
        obtain ⟨hroll, hflush⟩ := hlate logline e hmem
        rcases (ht.flushing.append hx).2 with hearly | hrecent | hcounted | ⟨hdisk, hwhy⟩
        · rw [hcounting.lastRoll] at hearly
          omega
        · rw [hcounting.lastFlush, hframe.flushInterval] at hrecent
          omega
        · obtain ⟨hclosed, hroll, hflush, hperiod, hcount, hfew⟩ := hcounted
          rw [hlines]
          refine .inr ⟨hclosed.trans hcounting.closed, hroll.trans hcounting.lastRoll,
            hflush.trans hcounting.lastFlush, hperiod.trans hcounting.startOfPeriod, ?_,
            .inr (hframe.checkEveryN ▸ hfew)⟩
          rw [hcount, hcounting.count]
          omega
        · refine .inl ⟨ht.text.trans hdisk, ?_⟩
          rw [hcounting.closed, hcounting.startOfPeriod] at hwhy
          exact hwhy.imp id fun hday => ⟨logline, e, hmem, hday⟩

end LogFile

/-- From any state on, after `checkEveryN_` lines, at least one, in seconds that are later than the
last roll and come more than `flushInterval_` after the last flush, all that was written before them
has left the buffers. If they all come on another day than that of the last roll, a new file has
been opened. -/
theorem log_file_durable {host : LogHost} {basename : Bytes}
    {rollSize flushInterval checkEveryN now : ℤ} {opens : Bool} {s₀ s t : LogFile}
    (hnew : LogFile.new host basename rollSize flushInterval checkEveryN now opens = .ok s₀)
    {pre ls : List LogFileStep} (hpre : (logFile host).Run s₀ pre s)
    (hrun : (logFile host).Run s ls t) (hsome : appendedLines ls ≠ [])
    (hmany : checkEveryN ≤ (appendedLines ls).length)
    (hlate : ∀ logline e, .append logline e ∈ ls →
      s.lastRoll < e.rollNow ∧ s.lastFlush + flushInterval < e.now) :
    s.text <+: t.onDisk ∧
    ((∀ logline e, .append logline e ∈ ls → startOfDay e.now ≠ s.startOfPeriod) →
      s.closed.length < t.closed.length) := by
  have hs := ((LogFile.Flushing.new hnew).run hpre).flushing
  have hconfig : s.flushInterval = flushInterval ∧ s.checkEveryN = checkEveryN := by
    have hframe := LogFile.Frame.run hpre
    rcases LogFile.new_cases hnew with ⟨-, rfl⟩ | rfl
    · exact ⟨hframe.flushInterval, hframe.checkEveryN⟩
    · exact ⟨hframe.flushInterval, hframe.checkEveryN⟩
  rw [← hconfig.1] at hlate
  rcases hs.window hrun hlate with ⟨hdisk, hwhy⟩ | hcounting
  · refine ⟨hdisk, fun hother => hwhy.resolve_right ?_⟩
    rintro ⟨logline, e, hmem, hday⟩
    exact hother logline e hmem hday
  · have hpos := List.length_pos_iff.mpr hsome
    have hnonneg := hs.nonneg
    have hcount := hcounting.count
    have hfew := hcounting.few.resolve_left (Nat.ne_of_gt hpos)
    rw [hconfig.2] at hfew
    omega

/-- The second of two lines flushes the first one. -/
theorem log_file_durable_two_lines : ∃ s t,
    LogFile.new .beijing (ascii "log") 1000 3 1 100 true = .ok s ∧
    (logFile .beijing).Run s [.append (ascii "a") (.inSecond 101),
      .append (ascii "b") (.inSecond 104)] t ∧ ascii "a" <+: t.onDisk := by
  obtain ⟨s, u, t, hnew, hpre, hrun, htext, hroll, hflush⟩ : ∃ s u t,
      LogFile.new .beijing (ascii "log") 1000 3 1 100 true = .ok s ∧
      (logFile .beijing).Run s [.append (ascii "a") (.inSecond 101)] u ∧
      (logFile .beijing).Run u [.append (ascii "b") (.inSecond 104)] t ∧
      u.text = ascii "a" ∧ u.lastRoll = 100 ∧ u.lastFlush = 100 :=
    ⟨_, _, _, rfl, .of_play rfl, .of_play rfl, rfl, rfl, rfl⟩
  have hdisk := (log_file_durable hnew hpre hrun (by decide) (by decide) fun logline e hmem => by
    obtain ⟨rfl, rfl⟩ : logline = ascii "b" ∧ e = .inSecond 104 := by simpa using hmem
    rw [hroll, hflush]
    decide).1
  exact ⟨s, t, hnew, hpre.trans hrun, htext ▸ hdisk⟩

end Tmuduo
