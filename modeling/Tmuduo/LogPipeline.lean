import Tmuduo.Grouping
import Tmuduo.LogDelivery
import Tmuduo.LogFile

/-!
# From the log to its files

`LogPipeline` is an `AsyncLogging` together with the `LogFile` of its background thread, the local
`output` of `threadFunc`. The thread gives it one buffer at a time (`LogThread.given`), or the line
that stands for dropped buffers, and flushes it at the end of each turn of its loop.

A line is whole in a buffer and a buffer is whole in a file. `AsyncLogging.cells` are the buffers on
their way, from the first one that is not written to the current one. A step moves them along, and
only an append adds to them. `log_pipeline` is the statement for the files.
-/

set_option autoImplicit false

namespace Tmuduo

/-- What `threadFunc` gives to `output.append` in its next step. -/
def LogThread.given (t : LogThread) (now : Bytes) : Option Bytes :=
  match t.place with
  | .collected =>
    if t.buffersToWrite.length > 25 then some (droppedNotice now t.buffersToWrite.length) else none
  | .writing i =>
    match t.buffersToWrite[i]? with
    | some (some b) => some b.bytes
    | _ => none
  | _ => none

/-- `output`, which is there from the start of `threadFunc` on. -/
structure LogPipeline where
  log : AsyncLogging
  output : Option LogFile
  deriving DecidableEq, Repr

/-- A step of the log, and what the system answers when it uses `output`. -/
structure PipelineStep where
  step : LogStep
  env : LogEnv

namespace LogPipeline

def new : LogPipeline := ⟨.new, none⟩

variable (host : LogHost) (basename : Bytes) (rollSize : ℤ) (s : LogPipeline)

/-- `output` is used. -/
def withOutput (f : LogFile → Except LogFileFault LogFile) :
    Except LogFileFault (Option LogFile) :=
  match s.output with
  | none => .error .nullFile
  | some output => do
    let output ← f output
    return some output

/-- What the next step of `threadFunc` does with `output`. -/
def threadOutput (now : Bytes) (e : LogEnv) : Except LogFileFault (Option LogFile) :=
  match s.log.thread.place with
  | .started => do
    let output ← LogFile.new host basename rollSize 3 1024 e.now e.opens
    return some output
  | .collected | .writing _ =>
    match s.log.thread.given now with
    | none => return s.output
    | some piece => s.withOutput fun output => output.append_unlocked host e piece
  | .recycling => s.withOutput LogFile.flush
  | .loopHead => if s.log.running then return s.output else s.withOutput LogFile.flush
  | _ => return s.output

def exec (l : PipelineStep) : Except (LogFault ⊕ LogFileFault) LogPipeline := do
  let log ← (asyncLogging.exec s.log l.step).mapError .inl
  match l.step with
  | .background now =>
    let output ← (s.threadOutput host basename rollSize now l.env).mapError .inr
    return ⟨log, output⟩
  | _ => return ⟨log, s.output⟩

end LogPipeline

/-- The log, and its files. -/
def logPipeline (host : LogHost) (basename : Bytes) (rollSize : ℤ) :
    Machine LogPipeline PipelineStep (LogFault ⊕ LogFileFault) where
  enabled s l := asyncLogging.enabled s.log l.step
  exec s l := s.exec host basename rollSize l

instance (host : LogHost) (basename : Bytes) (rollSize : ℤ) (s : LogPipeline) (l : PipelineStep) :
    Decidable ((logPipeline host basename rollSize).enabled s l) :=
  inferInstanceAs (Decidable (asyncLogging.enabled s.log l.step))

/-- Lines fit into a buffer, and no iteration drops buffers. -/
def GentleStep (s : LogPipeline) (l : PipelineStep) : Prop := Gentle s.log l.step

instance (s : LogPipeline) (l : PipelineStep) : Decidable (GentleStep s l) :=
  inferInstanceAs (Decidable (Gentle s.log l.step))

/-- The line of a step, if it has one. -/
def PipelineStep.line? (l : PipelineStep) : Option Bytes :=
  match l.step with
  | .append logline => some logline
  | _ => none

/-- The lines of a run, in the order in which the appends took the mutex. -/
def pipelineLines (ls : List PipelineStep) : List Bytes := ls.filterMap PipelineStep.line?

/-! ## The cells -/

namespace LogThread

variable {t u : LogThread} {now : Bytes}

theorem drop_given (hplace : t.place = .collected) (hfew : t.buffersToWrite.length ≤ 25)
    (hx : t.drop now = .ok u) :
    t.unwritten.map ptrBytes = (t.given now).toList ++ u.unwritten.map ptrBytes ∧
      u.output = t.output ++ (t.given now).toList.flatten := by
  obtain ⟨-, hx⟩ := check_bind_eq_ok_iff.mp hx
  rw [if_neg (by omega)] at hx
  obtain rfl := Except.ok.inj hx
  have hgiven : t.given now = none := by simp [given, hplace, hfew]
  exact ⟨by simp [hgiven, LogThread.unwritten, hplace], by simp [hgiven]⟩

theorem write_given {i : ℕ} (hplace : t.place = .writing i) (hx : t.write i = .ok u) :
    t.unwritten.map ptrBytes = (t.given now).toList ++ u.unwritten.map ptrBytes ∧
      u.output = t.output ++ (t.given now).toList.flatten := by
  unfold LogThread.write at hx
  split at hx
  · next b hget =>
    obtain rfl := Except.ok.inj hx
    have hdrop : t.buffersToWrite.drop i = some b :: t.buffersToWrite.drop (i + 1) := by
      obtain ⟨hi, hb⟩ := List.getElem?_eq_some_iff.mp hget
      rw [List.drop_eq_getElem_cons hi, hb]
    have hgiven : t.given now = some b.bytes := by simp [given, hplace, hget]
    exact ⟨by simp [hgiven, LogThread.unwritten, hplace, hdrop, ptrBytes], by simp [hgiven]⟩
  · cases hx
  · next hget =>
    obtain rfl := Except.ok.inj hx
    have hdrop : t.buffersToWrite.drop i = [] :=
      List.drop_eq_nil_of_le (List.getElem?_eq_none_iff.mp hget)
    have hgiven : t.given now = none := by simp [given, hplace, hget]
    exact ⟨by simp [hgiven, LogThread.unwritten, hplace, hdrop], by simp [hgiven]⟩

end LogThread

namespace AsyncLogging

variable {s u : AsyncLogging}

/-- The buffers that are collected, filled, and the current one, as bytes. -/
def cells (s : AsyncLogging) : List Bytes :=
  s.thread.unwritten.map ptrBytes ++ (s.buffers.map ptrBytes ++ [ptrBytes s.currentBuffer])

/-- An append adds its line to the last cell, or in a cell of its own. -/
theorem Inv.append_cells (h : s.Inv) {logline : Bytes} (hline : logline.length < kLargeBuffer)
    (hx : s.append logline = .ok u) :
    u.thread = s.thread ∧ ((∃ cells cell, s.cells = cells ++ [cell] ∧
      u.cells = cells ++ [cell ++ logline]) ∨ u.cells = s.cells ++ [logline]) := by
  obtain ⟨current, hcurrent⟩ := Option.ne_none_iff_exists'.mp h.current
  unfold AsyncLogging.append at hx
  rw [hcurrent] at hx
  simp only at hx
  split_ifs at hx with havail
  · obtain rfl := Except.ok.inj hx
    refine ⟨rfl, .inl ⟨s.thread.unwritten.map ptrBytes ++ s.buffers.map ptrBytes, current.bytes, ?_,
      ?_⟩⟩
    · simp [cells, hcurrent, ptrBytes]
    · simp [cells, ptrBytes, FixedBuffer.append_bytes havail]
  · obtain rfl := Except.ok.inj hx
    have hnext : s.nextBuffer.getD .new = .new := by
      cases hnext : s.nextBuffer with
      | none => rfl
      | some b => exact h.next b hnext
    have hbytes : (FixedBuffer.append .new logline : FixedBuffer kLargeBuffer).bytes = logline :=
      FixedBuffer.append_bytes hline
    exact ⟨rfl, .inr (by simp [cells, hcurrent, ptrBytes, hnext, hbytes])⟩

/-- The collection turns the current buffer into one that is collected, and leaves an empty one. -/
theorem Inv.collect_cells (h : s.Inv) (hwill : s.thread.WillCollect) :
    s.collect.cells = s.cells ++ [[]] := by
  have hready : s.thread.Ready := by
    have hrot := h.rotation
    rcases hwill with hplace | hplace <;> simpa only [LogThread.Rotation, hplace] using hrot
  have hunwritten : s.collect.thread.unwritten = s.buffers ++ [s.currentBuffer] := rfl
  rw [cells, cells, hunwritten, hwill.unwritten]
  simp [AsyncLogging.collect, hready.newBuffer1, hready.buffersToWrite, ptrBytes, FixedBuffer.new]

/-- A step of the thread that does not collect gives the first of the collected buffers to `output`,
or nothing. -/
theorem Inv.threadFunc_given (h : s.Inv) {now : Bytes} (hgentle : Gentle s (.background now))
    (hx : s.threadFunc now = .ok u) :
    (s.thread.WillCollect ∧ u = s.collect ∧ s.thread.given now = none) ∨
    ∃ t, u = { s with thread := t } ∧
      s.thread.unwritten.map ptrBytes = (s.thread.given now).toList ++ t.unwritten.map ptrBytes ∧
      t.output = s.thread.output ++ (s.thread.given now).toList.flatten := by
  have hrot := h.rotation
  unfold LogThread.Rotation at hrot
  unfold AsyncLogging.threadFunc at hx
  cases hplace : s.thread.place with
  | notStarted | exited =>
    rw [hplace] at hx
    obtain rfl := Except.ok.inj hx
    exact .inr ⟨s.thread, rfl, by simp [LogThread.given, hplace], by simp [LogThread.given, hplace]⟩
  | started =>
    rw [hplace] at hx
    obtain ⟨-, hx⟩ := check_bind_eq_ok_iff.mp hx
    obtain rfl := Except.ok.inj hx
    exact .inr ⟨_, rfl, by simp [LogThread.given, LogThread.unwritten, hplace],
      by simp [LogThread.given, hplace]⟩
  | loopHead =>
    rw [hplace] at hx hrot
    simp only [LogThread.Ready.loopHead hrot, ok_bind, except_pure] at hx
    obtain rfl := Except.ok.inj hx
    refine .inr ⟨_, rfl, ?_, by simp [LogThread.given, hplace]⟩
    cases s.running <;> simp [LogThread.given, LogThread.unwritten, hplace]
  | locking =>
    rw [hplace] at hx
    simp only at hx
    split_ifs at hx
    · obtain rfl := Except.ok.inj hx
      exact .inr ⟨_, rfl, by simp [LogThread.given, LogThread.unwritten, hplace],
        by simp [LogThread.given, hplace]⟩
    · exact .inl ⟨.inl hplace, (Except.ok.inj hx).symm, by simp [LogThread.given, hplace]⟩
  | waiting =>
    rw [hplace] at hx
    exact .inl ⟨.inr hplace, (Except.ok.inj hx).symm, by simp [LogThread.given, hplace]⟩
  | collected =>
    rw [hplace] at hx
    obtain ⟨t, ht, rfl⟩ := bind_pure_eq_ok_iff.mp hx
    exact .inr ⟨t, rfl, LogThread.drop_given hplace (hgentle hplace) ht⟩
  | writing i =>
    rw [hplace] at hx
    obtain ⟨t, ht, rfl⟩ := bind_pure_eq_ok_iff.mp hx
    exact .inr ⟨t, rfl, LogThread.write_given hplace ht⟩
  | recycling =>
    rw [hplace] at hx hrot
    simp only [LogThread.Collected.recycle hrot, ok_bind, except_pure] at hx
    obtain rfl := Except.ok.inj hx
    exact .inr ⟨_, rfl, by simp [LogThread.given, LogThread.unwritten, hplace],
      by simp [LogThread.given, hplace]⟩

end AsyncLogging

/-! ## One step -/

theorem LogFile.Flushing.flush_onDisk {s u : LogFile} (h : s.Flushing) (hx : s.flush = .ok u) :
    u.Flushing ∧ u.onDisk = u.text := by
  obtain ⟨f, hf, rfl⟩ := LogFile.flush_eq_ok_iff.mp hx
  have hu : ({ s with file := some f.flush } : LogFile).Flushing := ⟨h.closed, by
    rintro f' ⟨rfl⟩
    exact Nat.le_refl _, h.nonneg⟩
  exact ⟨hu, by rw [hu.onDisk_eq rfl, LogFile.text_eq rfl, f.onDisk_flush, f.bytes_flush]⟩

namespace LogPipeline

variable {host : LogHost} {basename : Bytes} {rollSize : ℤ} {s u : LogPipeline}

/-- The bytes of the files. -/
def fileBytes (s : LogPipeline) : List Bytes :=
  s.output.elim [] fun output => output.files.map OpenedFile.bytes

def onDisk (s : LogPipeline) : Bytes := s.output.elim [] LogFile.onDisk

/-- The thread is not between a collection and the flush behind it. -/
def Quiet (t : LogThread) : Prop :=
  t.place = .loopHead ∨ t.place = .locking ∨ t.place = .waiting ∨ t.place = .exited

/-- `output` has been given these pieces. -/
def Given (output : Option LogFile) (pieces : List Bytes) : Prop :=
  (output = none ∧ pieces = []) ∨ ∃ f, output = some f ∧ f.Holds pieces ∧ f.Flushing

/-- What every step keeps, with the lines appended so far. -/
structure Inv (s : LogPipeline) (lines : List Bytes) : Prop where
  log : s.log.Inv
  early : s.log.thread.place = .notStarted ∨ s.log.thread.place = .started → s.output = none
  given : ∃ pieces, Given s.output pieces ∧ pieces.flatten = s.log.thread.output ∧
    Grouped (pieces ++ s.log.cells) lines
  quiet : Quiet s.log.thread → ∀ f ∈ s.output, f.onDisk = f.text

theorem Inv.new : Inv .new [] where
  log := .new
  early _ := rfl
  given := ⟨[], .inl ⟨rfl, rfl⟩, rfl, .empty⟩
  quiet _ _ h := by cases h

theorem withOutput_eq_ok_iff {f : LogFile → Except LogFileFault LogFile} {output : Option LogFile} :
    s.withOutput f = .ok output ↔
      ∃ f₀ f₁, s.output = some f₀ ∧ f f₀ = .ok f₁ ∧ output = some f₁ := by
  unfold withOutput
  split
  · next h => simp [h]
  · next f₀ h =>
    rw [bind_pure_eq_ok_iff]
    simp [h]

theorem Given.flush {pieces : List Bytes} (h : Given s.output pieces) {output : Option LogFile}
    (hx : s.withOutput LogFile.flush = .ok output) :
    Given output pieces ∧ ∀ f ∈ output, f.onDisk = f.text := by
  obtain ⟨f₀, f₁, hf₀, hflush, rfl⟩ := withOutput_eq_ok_iff.mp hx
  obtain ⟨hnone, -⟩ | ⟨f, hf, hholds, hflushing⟩ := h
  · rw [hnone] at hf₀
    cases hf₀
  obtain rfl := Option.some.inj (hf.symm.trans hf₀)
  obtain ⟨hflushing', hdisk⟩ := hflushing.flush_onDisk hflush
  refine ⟨.inr ⟨f₁, rfl, hholds.flush hflush, hflushing'⟩, ?_⟩
  rintro f' ⟨rfl⟩
  exact hdisk

theorem Given.append {pieces : List Bytes} (h : Given s.output pieces) {output : Option LogFile}
    {e : LogEnv} {piece : Bytes} (hdisk : ¬e.fwrite.Stalls piece.length)
    (hx : s.withOutput (fun output => output.append_unlocked host e piece) = .ok output) :
    Given output (pieces ++ [piece]) := by
  obtain ⟨f₀, f₁, hf₀, happend, rfl⟩ := withOutput_eq_ok_iff.mp hx
  obtain ⟨hnone, -⟩ | ⟨f, hf, hholds, hflushing⟩ := h
  · rw [hnone] at hf₀
    cases hf₀
  obtain rfl := Option.some.inj (hf.symm.trans hf₀)
  exact .inr ⟨f₁, rfl, hholds.append hdisk happend, (hflushing.append happend).1.flushing⟩

/-- What `threadFunc` does with `output`. -/
theorem Inv.threadOutput {lines : List Bytes} (h : s.Inv lines) {now : Bytes} {e : LogEnv}
    (hdisk : ∀ len, ¬e.fwrite.Stalls len) {output : Option LogFile}
    (hx : s.threadOutput host basename rollSize now e = .ok output) {pieces : List Bytes}
    (hgiven : Given s.output pieces) :
    Given output (pieces ++ (s.log.thread.given now).toList) := by
  unfold LogPipeline.threadOutput at hx
  cases hplace : s.log.thread.place with
  | notStarted | exited | locking | waiting =>
    rw [hplace] at hx
    obtain rfl := Except.ok.inj hx
    simpa [LogThread.given, hplace] using hgiven
  | started =>
    rw [hplace] at hx
    obtain ⟨f, hf, rfl⟩ := bind_pure_eq_ok_iff.mp hx
    have hnil : pieces = [] := by
      rcases hgiven with ⟨-, hnil⟩ | ⟨f, hf, -⟩
      · exact hnil
      · rw [h.early (.inr hplace)] at hf
        cases hf
    rw [hnil, LogThread.given, hplace]
    exact .inr ⟨f, rfl, .new hf, .new hf⟩
  | collected | writing _ =>
    rw [hplace] at hx
    cases hpiece : s.log.thread.given now with
    | none =>
      simp only [hpiece] at hx
      obtain rfl := Except.ok.inj hx
      simpa using hgiven
    | some piece =>
      simp only [hpiece] at hx
      exact hgiven.append (hdisk _) hx
  | recycling =>
    rw [hplace] at hx
    simpa [LogThread.given, hplace] using (hgiven.flush hx).1
  | loopHead =>
    rw [hplace] at hx
    simp only at hx
    split_ifs at hx
    · obtain rfl := Except.ok.inj hx
      simpa [LogThread.given, hplace] using hgiven
    · simpa [LogThread.given, hplace] using (hgiven.flush hx).1

/-- The thread does not start twice, and it is not quiet while it writes. -/
theorem threadFunc_place {s u : AsyncLogging} (h : s.Inv) {now : Bytes}
    (he : s.thread.place ≠ .notStarted ∧ s.thread.place ≠ .exited)
    (hx : s.threadFunc now = .ok u) :
    u.thread.place ≠ .notStarted ∧ u.thread.place ≠ .started ∧
      (Quiet u.thread → s.thread.place ≠ .collected ∧ ∀ i, s.thread.place ≠ .writing i) := by
  have hrot := h.rotation
  unfold LogThread.Rotation at hrot
  unfold AsyncLogging.threadFunc at hx
  cases hplace : s.thread.place with
  | notStarted => exact absurd hplace he.1
  | exited => exact absurd hplace he.2
  | started =>
    rw [hplace] at hx
    obtain ⟨-, hx⟩ := check_bind_eq_ok_iff.mp hx
    obtain rfl := Except.ok.inj hx
    simp
  | loopHead =>
    rw [hplace] at hx hrot
    simp only [LogThread.Ready.loopHead hrot, ok_bind, except_pure] at hx
    obtain rfl := Except.ok.inj hx
    cases s.running <;> simp
  | locking =>
    rw [hplace] at hx
    simp only at hx
    split_ifs at hx <;> obtain rfl := Except.ok.inj hx <;> simp [AsyncLogging.collect]
  | waiting =>
    rw [hplace] at hx
    obtain rfl := Except.ok.inj hx
    simp [AsyncLogging.collect]
  | collected =>
    rw [hplace] at hx hrot
    obtain ⟨t, ht, rfl⟩ := bind_pure_eq_ok_iff.mp hx
    obtain ⟨t', ht', hplace', -⟩ := LogThread.Collected.drop hrot now
    obtain rfl := Except.ok.inj (ht.symm.trans ht')
    simp [Quiet, hplace']
  | writing i =>
    rw [hplace] at hx hrot
    obtain ⟨t, ht, rfl⟩ := bind_pure_eq_ok_iff.mp hx
    rcases (LogThread.write_taken hplace ht).2 with hplace' | hplace' <;> simp [Quiet, hplace']
  | recycling =>
    rw [hplace] at hx hrot
    simp only [LogThread.Collected.recycle hrot, ok_bind, except_pure] at hx
    obtain rfl := Except.ok.inj hx
    simp

/-- Where the thread is quiet, `output` has been flushed. -/
theorem Inv.threadOutput_onDisk {lines : List Bytes} (h : s.Inv lines) {now : Bytes} {e : LogEnv}
    {output : Option LogFile} (hx : s.threadOutput host basename rollSize now e = .ok output)
    (hplace : s.log.thread.place ≠ .notStarted ∧ s.log.thread.place ≠ .collected ∧
      ∀ i, s.log.thread.place ≠ .writing i) : ∀ f ∈ output, f.onDisk = f.text := by
  obtain ⟨pieces, hgiven, -⟩ := h.given
  unfold LogPipeline.threadOutput at hx
  cases hp : s.log.thread.place with
  | notStarted => exact absurd hp hplace.1
  | collected => exact absurd hp hplace.2.1
  | writing i => exact absurd hp (hplace.2.2 i)
  | exited | locking | waiting =>
    rw [hp] at hx
    obtain rfl := Except.ok.inj hx
    exact h.quiet (by simp [Quiet, hp])
  | started =>
    rw [hp] at hx
    obtain ⟨f, hf, rfl⟩ := bind_pure_eq_ok_iff.mp hx
    rintro f' ⟨rfl⟩
    rcases LogFile.new_cases hf with ⟨-, rfl⟩ | rfl <;> rfl
  | recycling =>
    rw [hp] at hx
    exact (hgiven.flush hx).2
  | loopHead =>
    rw [hp] at hx
    simp only at hx
    split_ifs at hx
    · obtain rfl := Except.ok.inj hx
      exact h.quiet (by simp [Quiet, hp])
    · exact (hgiven.flush hx).2

theorem Inv.background {lines : List Bytes} (h : s.Inv lines) {now : Bytes} {e : LogEnv}
    (he : asyncLogging.enabled s.log (.background now)) (hgentle : Gentle s.log (.background now))
    (hdisk : ∀ len, ¬e.fwrite.Stalls len) {log : AsyncLogging} {output : Option LogFile}
    (hlog : s.log.threadFunc now = .ok log)
    (hout : s.threadOutput host basename rollSize now e = .ok output) :
    Inv ⟨log, output⟩ lines := by
  have hinv : log.Inv := by
    obtain ⟨log', hlog', hinv⟩ := h.log.threadFunc now
    obtain rfl := Except.ok.inj (hlog.symm.trans hlog')
    exact hinv
  obtain ⟨hnot, hstarted, hquiet⟩ := threadFunc_place h.log he hlog
  obtain ⟨pieces, hgiven, hpieces, hgrouped⟩ := h.given
  refine ⟨hinv, fun hearly => absurd hearly (by simp [hnot, hstarted]), ?_, fun hq =>
    h.threadOutput_onDisk hout ⟨he.1, hquiet hq⟩⟩
  refine ⟨_, h.threadOutput hdisk hout hgiven, ?_⟩
  obtain ⟨hwill, rfl, hnone⟩ | ⟨t, rfl, hcells, houtput⟩ := h.log.threadFunc_given hgentle hlog
  · rw [hnone, Option.toList_none, List.append_nil, h.log.collect_cells hwill, ← List.append_assoc]
    exact ⟨hpieces, by simpa using hgrouped.append .empty⟩
  · refine ⟨?_, ?_⟩
    · rw [List.flatten_append, hpieces, houtput]
    · rw [AsyncLogging.cells, hcells] at hgrouped
      simpa [AsyncLogging.cells] using hgrouped

theorem Inv.step {lines : List Bytes} (h : s.Inv lines) {l : PipelineStep}
    (he : ((logPipeline host basename rollSize).restrict GentleStep).enabled s l)
    (hdisk : ∀ len, ¬l.env.fwrite.Stalls len)
    (hx : (logPipeline host basename rollSize).exec s l = .ok u) :
    u.Inv (lines ++ l.line?.toList) := by
  obtain ⟨l, e⟩ := l
  obtain ⟨he, hgentle⟩ := he
  obtain ⟨log, hlog, hx⟩ := bind_eq_ok_iff.mp hx
  rw [mapError_eq_ok_iff] at hlog
  obtain ⟨pieces, hgiven, hpieces, hgrouped⟩ := h.given
  obtain ⟨log', hlog', hinv⟩ := AsyncLogging.Inv.step h.log he
  obtain rfl := Except.ok.inj (hlog.symm.trans hlog')
  cases l with
  | background now =>
    obtain ⟨output, hout, rfl⟩ := bind_pure_eq_ok_iff.mp hx
    rw [mapError_eq_ok_iff] at hout
    change Inv _ (lines ++ [])
    rw [List.append_nil]
    exact h.background he hgentle hdisk hlog hout
  | append logline =>
    obtain rfl := Except.ok.inj hx
    obtain ⟨hthread, hcells⟩ := h.log.append_cells hgentle hlog
    rw [← hthread] at hpieces
    refine ⟨hinv, by rw [hthread]; exact h.early, ⟨pieces, hgiven, hpieces, ?_⟩,
      by rw [hthread]; exact h.quiet⟩
    rcases hcells with ⟨cells, cell, hs, hu⟩ | hu
    · rw [hs, ← List.append_assoc] at hgrouped
      rw [hu, ← List.append_assoc]
      exact hgrouped.extend logline
    · rw [hu, ← List.append_assoc]
      exact hgrouped.append (.singleton logline)
  | start =>
    obtain rfl := Except.ok.inj hx
    obtain rfl := Except.ok.inj hlog
    have hplace : s.log.thread.place = .notStarted := he
    change Inv _ (lines ++ [])
    rw [List.append_nil]
    refine ⟨hinv, fun _ => h.early (.inl hplace), ⟨pieces, hgiven, hpieces, ?_⟩, by simp [Quiet]⟩
    simpa [AsyncLogging.cells, LogThread.unwritten, hplace] using hgrouped
  | stopCall | stopClear | stopJoin =>
    obtain rfl := Except.ok.inj hx
    obtain rfl := Except.ok.inj hlog
    change Inv _ (lines ++ [])
    rw [List.append_nil]
    exact ⟨hinv, h.early, ⟨pieces, hgiven, hpieces, hgrouped⟩, h.quiet⟩

theorem Inv.run {ls : List PipelineStep}
    (hrun : ((logPipeline host basename rollSize).restrict GentleStep).Run .new ls s)
    (hdisk : ∀ l ∈ ls, ∀ len, ¬l.env.fwrite.Stalls len) : s.Inv (pipelineLines ls) := by
  induction hrun with
  | nil => exact .new
  | @snoc ls t u l _ he hx ih =>
    have ht := ih fun l' hl' => hdisk l' (List.mem_append_left _ hl')
    have hlines : pipelineLines (ls ++ [l]) = pipelineLines ls ++ l.line?.toList := by
      rw [pipelineLines, pipelineLines, List.filterMap_append]
      cases h : l.line? <;> simp [h]
    rw [hlines]
    exact ht.step he (hdisk l (List.mem_append_right _ List.mem_cons_self)) hx

theorem Given.grouped {pieces : List Bytes} (h : Given s.output pieces) :
    Grouped s.fileBytes pieces := by
  obtain ⟨hnone, rfl⟩ | ⟨f, hf, ⟨parts, rfl, hfiles⟩, -⟩ := h
  · rw [fileBytes, hnone]
    exact .nil
  · refine ⟨parts, ?_, rfl⟩
    rw [fileBytes, hf]
    have hbytes := congrArg (List.map AppendFile.file) hfiles
    rw [List.map_map, List.map_map] at hbytes
    exact hbytes.symm

end LogPipeline

/-- As long as lines fit into a buffer, no iteration drops buffers and the disk takes what it is
given : whatever the threads and the clock do, the lines appended are those in the files and then
those on their way, in order, and each line is whole in one file or one buffer. The files hold what
the thread has written, and whenever it is not in the middle of an iteration all of it has left the
buffers of the files. -/
theorem log_pipeline {host : LogHost} {basename : Bytes} {rollSize : ℤ} {ls : List PipelineStep}
    {t : LogPipeline}
    (hrun : ((logPipeline host basename rollSize).restrict GentleStep).Run .new ls t)
    (hdisk : ∀ l ∈ ls, ∀ len, ¬l.env.fwrite.Stalls len) :
    (∃ written waiting, pipelineLines ls = written ++ waiting ∧ Grouped t.fileBytes written ∧
      Grouped t.log.cells waiting) ∧
    t.fileBytes.flatten = t.log.thread.output ∧
    (LogPipeline.Quiet t.log.thread → t.onDisk = t.log.thread.output) := by
  have h := LogPipeline.Inv.run hrun hdisk
  obtain ⟨pieces, hgiven, hpieces, hgrouped⟩ := h.given
  obtain ⟨written, waiting, hlines, hwritten, hwaiting⟩ := hgrouped.split
  have hfiles : t.fileBytes.flatten = t.log.thread.output := by
    rw [hgiven.grouped.flatten_eq, hpieces]
  refine ⟨⟨written, waiting, hlines, hgiven.grouped.trans hwritten, hwaiting⟩, hfiles,
    fun hquiet => ?_⟩
  rw [← hfiles]
  cases houtput : t.output with
  | none => rw [LogPipeline.onDisk, LogPipeline.fileBytes, houtput]; rfl
  | some f =>
    rw [LogPipeline.onDisk, LogPipeline.fileBytes, houtput]
    exact h.quiet hquiet f houtput

/-- One step in the second 100. -/
def PipelineStep.inSecond100 (l : LogStep) : PipelineStep := ⟨l, .inSecond 100⟩

/-- The first line has been written and flushed, and the second one is on its way. -/
theorem log_pipeline_two_lines : ∃ t,
    ((logPipeline .beijing (ascii "log") 1000).restrict GentleStep).Run .new
      ([.start, .background [], .background [], .append (ascii "a\n"), .background [],
        .background [], .background [], .append (ascii "b\n"), .background [], .background [],
        .background []].map .inSecond100) t ∧
    t.fileBytes = [ascii "a\n"] ∧ t.log.cells = [ascii "b\n"] ∧ t.onDisk = ascii "a\n" := by
  obtain ⟨t, hrun, hfiles, hcells, houtput, hplace⟩ : ∃ t,
      ((logPipeline .beijing (ascii "log") 1000).restrict GentleStep).Run .new
        ([.start, .background [], .background [], .append (ascii "a\n"), .background [],
          .background [], .background [], .append (ascii "b\n"), .background [], .background [],
          .background []].map .inSecond100) t ∧
      t.fileBytes = [ascii "a\n"] ∧ t.log.cells = [ascii "b\n"] ∧
      t.log.thread.output = ascii "a\n" ∧ t.log.thread.place = .loopHead :=
    ⟨_, .of_play rfl, rfl, rfl, rfl, rfl⟩
  have hdisk := (log_pipeline hrun fun l hl len => by
    obtain ⟨l', -, rfl⟩ := List.mem_map.mp hl
    exact Fwrite.not_stalls_all len).2.2 (.inl hplace)
  exact ⟨t, hrun, hfiles, hcells, hdisk.trans houtput⟩

end Tmuduo
