import Tmuduo.AsyncLogging

/-!
# What the log delivers

`AsyncLogging.text` is the text that is written, collected and not yet collected, in this order.
As long as lines fit into a buffer and no iteration drops buffers (`Gentle`), a step of the
background thread does not change it and an append adds its line (`log_text`).

`stop` does not wait for what is not collected. The thread collects once more exactly when it
stands between the test of `running_` and its critical section (`LogThread.WillCollect`). A line
that does not fit into a buffer is left out, so the text only grows (`Inv.step_text_isPrefix`),
which is all that `stop_drains_iff` needs of the lines after the call of `stop`. It says when the
lines before the call are written, and `stop_loses_line` is a line that is lost.
-/

set_option autoImplicit false

namespace Tmuduo

/-! ## The text of a log -/

/-- What a pointer's buffer holds. -/
def ptrBytes (b : BufferPtr) : Bytes := b.elim [] FixedBuffer.bytes

/-- What the buffers of a vector hold, in order. -/
def vectorBytes (bs : BufferVector) : Bytes := (bs.map ptrBytes).flatten

@[simp] theorem vectorBytes_nil : vectorBytes [] = [] := rfl

@[simp] theorem vectorBytes_cons (b : BufferPtr) (bs : BufferVector) :
    vectorBytes (b :: bs) = ptrBytes b ++ vectorBytes bs := rfl

@[simp] theorem vectorBytes_append (bs bs' : BufferVector) :
    vectorBytes (bs ++ bs') = vectorBytes bs ++ vectorBytes bs' := by
  simp [vectorBytes]

/-- The buffers that have been collected and not been written. -/
def LogThread.unwritten (t : LogThread) : BufferVector :=
  match t.place with
  | .collected => t.buffersToWrite
  | .writing i => t.buffersToWrite.drop i
  | _ => []

/-- What has been written or will be before the next collection. -/
def LogThread.taken (t : LogThread) : Bytes := t.output ++ vectorBytes t.unwritten

/-- The written text, the collected text, the filled buffers and the current one. -/
def AsyncLogging.text (s : AsyncLogging) : Bytes :=
  s.thread.output ++ vectorBytes s.thread.unwritten ++ vectorBytes s.buffers ++
    ptrBytes s.currentBuffer

/-- The line that a step appends. -/
def LogStep.line : LogStep → Bytes
  | .append logline => logline
  | _ => []

/-- The lines of a run, in the order in which the appends took the mutex. -/
def appendedText (ls : List LogStep) : Bytes := (ls.map LogStep.line).flatten

/-- A line is shorter than a buffer, and an iteration collects no more than 25 buffers. -/
def Gentle (s : AsyncLogging) : LogStep → Prop
  | .append logline => logline.length < kLargeBuffer
  | .background _ => s.thread.place = .collected → s.thread.buffersToWrite.length ≤ 25
  | _ => True

instance (s : AsyncLogging) : ∀ l, Decidable (Gentle s l)
  | .append logline => inferInstanceAs (Decidable (logline.length < kLargeBuffer))
  | .background _ => inferInstanceAs (Decidable
      (s.thread.place = .collected → s.thread.buffersToWrite.length ≤ 25))
  | .start | .stopCall | .stopClear | .stopJoin => isTrue trivial

/-- An iteration collects no more than 25 buffers. -/
def FewCollected (s : AsyncLogging) : LogStep → Prop
  | .background _ => s.thread.place = .collected → s.thread.buffersToWrite.length ≤ 25
  | _ => True

instance (s : AsyncLogging) : ∀ l, Decidable (FewCollected s l)
  | .background _ => inferInstanceAs (Decidable
      (s.thread.place = .collected → s.thread.buffersToWrite.length ≤ 25))
  | .append _ | .start | .stopCall | .stopClear | .stopJoin => isTrue trivial

/-- The lines of a run are shorter than a buffer. -/
def ShortLines (ls : List LogStep) : Prop :=
  ∀ l ∈ ls, l.line.length < kLargeBuffer

instance (ls : List LogStep) : Decidable (ShortLines ls) :=
  inferInstanceAs (Decidable (∀ l ∈ ls, l.line.length < kLargeBuffer))

theorem Gentle.fewCollected {s : AsyncLogging} {l : LogStep} (h : Gentle s l) :
    FewCollected s l := by
  cases l with
  | background now => exact h
  | _ => trivial

theorem Gentle.line_lt {s : AsyncLogging} {l : LogStep} (h : Gentle s l) :
    l.line.length < kLargeBuffer := by
  have hpos : 0 < kLargeBuffer := by decide
  cases l with
  | append logline => exact h
  | _ => exact hpos

theorem FewCollected.gentle {s : AsyncLogging} {l : LogStep} (h : FewCollected s l)
    (hline : l.line.length < kLargeBuffer) : Gentle s l := by
  cases l with
  | append logline => exact hline
  | background now => exact h
  | _ => trivial

/-- What an empty buffer keeps of a line. -/
def fitting (logline : Bytes) : Bytes :=
  if logline.length < kLargeBuffer then logline else []

@[simp] theorem fitting_nil : fitting [] = [] := ite_self _

theorem fitting_of_lt {logline : Bytes} (h : logline.length < kLargeBuffer) :
    fitting logline = logline := if_pos h

/-! ## One step -/

theorem FixedBuffer.append_bytes {SIZE : ℕ} {b : FixedBuffer SIZE} {buf : Bytes}
    (h : b.avail > buf.length) : (b.append buf).bytes = b.bytes ++ buf := by
  simp [FixedBuffer.append, h]

theorem FixedBuffer.append_new_bytes (logline : Bytes) :
    (FixedBuffer.append .new logline : FixedBuffer kLargeBuffer).bytes = fitting logline := by
  by_cases h : logline.length < kLargeBuffer
  · rw [fitting_of_lt h]
    exact append_bytes h
  · rw [fitting, if_neg h, FixedBuffer.append, dif_neg (by exact h)]
    rfl

/-- The thread will collect before it tests `running_`. -/
def LogThread.WillCollect (t : LogThread) : Prop :=
  t.place = .locking ∨ t.place = .waiting

namespace LogThread

variable {t u : LogThread}

theorem taken_eq_output (h : t.unwritten = []) : t.taken = t.output := by
  rw [taken, h, vectorBytes_nil, List.append_nil]

theorem WillCollect.unwritten (h : t.WillCollect) : t.unwritten = [] := by
  rcases h with h | h <;> simp [LogThread.unwritten, h]

theorem drop_taken {now : Bytes} (hplace : t.place = .collected)
    (hfew : t.buffersToWrite.length ≤ 25) (hx : t.drop now = .ok u) :
    u.taken = t.taken ∧ u.place = .writing 0 := by
  unfold LogThread.drop at hx
  by_cases hnonempty : t.buffersToWrite = []
  · simp [hnonempty, check] at hx
    cases hx
  · rw [check_of _ hnonempty, ok_bind, if_neg (by omega)] at hx
    obtain rfl := Except.ok.inj hx
    exact ⟨by simp [taken, LogThread.unwritten, hplace], rfl⟩

theorem write_taken {i : ℕ} (hplace : t.place = .writing i) (hx : t.write i = .ok u) :
    u.taken = t.taken ∧ (u.place = .writing (i + 1) ∨ u.place = .recycling) := by
  unfold LogThread.write at hx
  split at hx
  · next b hget =>
    obtain rfl := Except.ok.inj hx
    have hdrop : t.buffersToWrite.drop i = some b :: t.buffersToWrite.drop (i + 1) := by
      obtain ⟨hi, hb⟩ := List.getElem?_eq_some_iff.mp hget
      rw [List.drop_eq_getElem_cons hi, hb]
    refine ⟨?_, .inl rfl⟩
    simp [taken, LogThread.unwritten, hplace, hdrop, ptrBytes]
  · cases hx
  · next hget =>
    obtain rfl := Except.ok.inj hx
    have hdrop : t.buffersToWrite.drop i = [] :=
      List.drop_eq_nil_of_le (List.getElem?_eq_none_iff.mp hget)
    exact ⟨by simp [taken, LogThread.unwritten, hplace, hdrop], .inr rfl⟩

end LogThread

namespace AsyncLogging

variable {s u : AsyncLogging}

theorem text_eq : s.text = s.thread.taken ++ vectorBytes s.buffers ++ ptrBytes s.currentBuffer :=
  rfl

/-- An append adds its line to the text if it fits into a buffer, and nothing otherwise. -/
theorem Inv.append_text (h : s.Inv) {logline : Bytes} (hx : s.append logline = .ok u) :
    u.text = s.text ++ fitting logline ∧ u.thread = s.thread ∧ u.running = s.running ∧
      u.stopCall = s.stopCall := by
  obtain ⟨current, hcurrent⟩ := Option.ne_none_iff_exists'.mp h.current
  unfold AsyncLogging.append at hx
  rw [hcurrent] at hx
  simp only at hx
  split_ifs at hx with havail
  · obtain rfl := Except.ok.inj hx
    have hline : logline.length < kLargeBuffer := Nat.lt_of_lt_of_le havail (Nat.sub_le _ _)
    simp [text, hcurrent, ptrBytes, FixedBuffer.append_bytes havail, fitting_of_lt hline]
  · obtain rfl := Except.ok.inj hx
    have hnext : s.nextBuffer.getD .new = .new := by
      cases hnext : s.nextBuffer with
      | none => rfl
      | some b => exact h.next b hnext
    simp [text, hcurrent, ptrBytes, hnext, FixedBuffer.append_new_bytes]

/-- The collection takes all the text there is. -/
theorem Inv.collect_taken (h : s.Inv) (hwill : s.thread.WillCollect) :
    s.collect.thread.taken = s.text ∧ s.collect.text = s.text := by
  have hready : s.thread.Ready := by
    have hrot := h.rotation
    rcases hwill with hplace | hplace <;> simpa only [LogThread.Rotation, hplace] using hrot
  have htaken : s.collect.thread.taken = s.text := by
    have hunwritten : s.collect.thread.unwritten = s.buffers ++ [s.currentBuffer] := rfl
    rw [LogThread.taken, hunwritten, text, hwill.unwritten]
    simp [AsyncLogging.collect]
  refine ⟨htaken, ?_⟩
  rw [text_eq, htaken]
  simp [AsyncLogging.collect, hready.newBuffer1, hready.buffersToWrite, ptrBytes, FixedBuffer.new]

/-- What a step of the background thread can do : collect, or change the thread alone. -/
theorem Inv.threadFunc_cases (h : s.Inv) {now : Bytes} (hfew : FewCollected s (.background now))
    (hx : s.threadFunc now = .ok u) :
    (s.thread.WillCollect ∧ u = s.collect) ∨
    ∃ t, u = { s with thread := t } ∧ t.taken = s.thread.taken ∧
      (s.thread.WillCollect → t.WillCollect) ∧
      (t.WillCollect → s.thread.WillCollect ∨ s.running = true) := by
  have hrot := h.rotation
  unfold LogThread.Rotation at hrot
  unfold AsyncLogging.threadFunc at hx
  cases hplace : s.thread.place with
  | notStarted | exited =>
    rw [hplace] at hx
    obtain rfl := Except.ok.inj hx
    exact .inr ⟨s.thread, rfl, rfl, id, .inl⟩
  | started =>
    rw [hplace] at hx
    have hrun : s.running = true :=
      (h.stopping.running (by simp [hplace])).mpr (.inl (h.stopping.early (.inr hplace)))
    simp only [check_of _ hrun, ok_bind, except_pure] at hx
    obtain rfl := Except.ok.inj hx
    exact .inr ⟨_, rfl, by simp [LogThread.taken, LogThread.unwritten, hplace],
      by simp [LogThread.WillCollect, hplace], fun _ => .inr hrun⟩
  | loopHead =>
    rw [hplace] at hx hrot
    simp only [LogThread.Ready.loopHead hrot, ok_bind, except_pure] at hx
    obtain rfl := Except.ok.inj hx
    refine .inr ⟨_, rfl, ?_, by simp [LogThread.WillCollect, hplace], fun hwill => ?_⟩
    · cases s.running <;> simp [LogThread.taken, LogThread.unwritten, hplace]
    · cases hrun : s.running with
      | true => exact .inr rfl
      | false => simp [LogThread.WillCollect, hrun] at hwill
  | locking =>
    rw [hplace] at hx
    simp only at hx
    split_ifs at hx
    · obtain rfl := Except.ok.inj hx
      exact .inr ⟨_, rfl, by simp [LogThread.taken, LogThread.unwritten, hplace],
        fun _ => .inr rfl, fun _ => .inl (.inl hplace)⟩
    · exact .inl ⟨.inl hplace, (Except.ok.inj hx).symm⟩
  | waiting =>
    rw [hplace] at hx
    exact .inl ⟨.inr hplace, (Except.ok.inj hx).symm⟩
  | collected =>
    rw [hplace] at hx hrot
    obtain ⟨t, ht, -⟩ := LogThread.Collected.drop hrot now
    simp only [ht, ok_bind, except_pure] at hx
    obtain rfl := Except.ok.inj hx
    obtain ⟨htaken, htplace⟩ := LogThread.drop_taken hplace (hfew hplace) ht
    exact .inr ⟨t, rfl, htaken, by simp [LogThread.WillCollect, hplace],
      by simp [LogThread.WillCollect, htplace]⟩
  | writing i =>
    rw [hplace] at hx hrot
    obtain ⟨t, ht, -⟩ := LogThread.Collected.write hrot i
    simp only [ht, ok_bind, except_pure] at hx
    obtain rfl := Except.ok.inj hx
    obtain ⟨htaken, htplace⟩ := LogThread.write_taken hplace ht
    refine .inr ⟨t, rfl, htaken, by simp [LogThread.WillCollect, hplace], ?_⟩
    rcases htplace with htplace | htplace <;> simp [LogThread.WillCollect, htplace]
  | recycling =>
    rw [hplace] at hx hrot
    simp only [LogThread.Collected.recycle hrot, ok_bind, except_pure] at hx
    obtain rfl := Except.ok.inj hx
    exact .inr ⟨_, rfl, by simp [LogThread.taken, LogThread.unwritten, hplace],
      by simp [LogThread.WillCollect, hplace], by simp [LogThread.WillCollect]⟩

theorem Inv.threadFunc_text (h : s.Inv) {now : Bytes} (hfew : FewCollected s (.background now))
    (hx : s.threadFunc now = .ok u) : u.text = s.text := by
  obtain ⟨hwill, rfl⟩ | ⟨t, rfl, htaken, -⟩ := h.threadFunc_cases hfew hx
  · exact (h.collect_taken hwill).2
  · rw [text_eq, htaken, text_eq]

/-- A step appends its line to the text, if it fits into a buffer. -/
theorem Inv.step_text (h : s.Inv) {l : LogStep}
    (he : (asyncLogging.restrict FewCollected).enabled s l) (hx : asyncLogging.exec s l = .ok u) :
    u.text = s.text ++ fitting l.line := by
  obtain ⟨he, hfew⟩ := he
  cases l with
  | append logline => exact (h.append_text hx).1
  | background now =>
    rw [h.threadFunc_text hfew hx]
    simp [LogStep.line]
  | start =>
    obtain rfl := Except.ok.inj hx
    have hplace : s.thread.place = .notStarted := he
    simp [text, LogThread.unwritten, hplace, LogStep.line]
  | stopCall | stopClear | stopJoin =>
    obtain rfl := Except.ok.inj hx
    simp [text, LogStep.line]

theorem Inv.step_text_isPrefix (h : s.Inv) {l : LogStep}
    (he : (asyncLogging.restrict FewCollected).enabled s l)
    (hx : asyncLogging.exec s l = .ok u) : s.text <+: u.text :=
  ⟨_, (h.step_text he hx).symm⟩

theorem refines_text :
    (asyncLogging.restrict Gentle).Refines Inv text fun text l => text ++ l.line where
  step s l h he := by
    obtain ⟨u, hu, hinv⟩ := Inv.step h he.1
    have htext := h.step_text ⟨he.1, he.2.fewCollected⟩ hu
    rw [fitting_of_lt he.2.line_lt] at htext
    exact ⟨u, hu, hinv, htext⟩

end AsyncLogging

theorem foldl_line (ls : List LogStep) (text : Bytes) :
    ls.foldl (fun text l => text ++ l.line) text = text ++ appendedText ls := by
  induction ls generalizing text with
  | nil => exact (List.append_nil text).symm
  | cons l ls ih =>
    rw [List.foldl_cons, ih, List.append_assoc]
    rfl

namespace AsyncLogging

theorem text_of_run {ls : List LogStep} {t : AsyncLogging}
    (hrun : (asyncLogging.restrict Gentle).Run .new ls t) : t.text = appendedText ls := by
  have htext := (refines_text.run .new hrun).2
  rw [foldl_line] at htext
  exact htext

end AsyncLogging

/-- In every state of a run in which lines fit into a buffer and no iteration collects more than
25 buffers, what is written, what is collected and not written, the filled buffers and the
current buffer are the appended lines, in order. -/
theorem log_text {ls : List LogStep} {t : AsyncLogging}
    (hrun : (asyncLogging.restrict Gentle).Run .new ls t) :
    t.thread.output ++ vectorBytes t.thread.unwritten ++ vectorBytes t.buffers ++
      ptrBytes t.currentBuffer = appendedText ls :=
  AsyncLogging.text_of_run hrun

/-- Two lines are appended while the thread waits, and a third one after the collection. -/
theorem log_text_three_lines : ∃ t,
    (asyncLogging.restrict Gentle).Run .new [.start, .background [], .background [],
      .append (ascii "a\n"), .append (ascii "b\n"), .background [], .background [],
      .append (ascii "c\n"), .background []] t ∧
    t.thread.place = .writing 0 ∧ vectorBytes t.thread.unwritten = ascii "a\nb\n" ∧
    t.thread.output ++ vectorBytes t.thread.unwritten ++ vectorBytes t.buffers ++
      ptrBytes t.currentBuffer = ascii "a\nb\nc\n" := by
  have hrun : (asyncLogging.restrict Gentle).Run .new [.start, .background [], .background [],
      .append (ascii "a\n"), .append (ascii "b\n"), .background [], .background [],
      .append (ascii "c\n"), .background []] _ := .of_play rfl
  exact ⟨_, hrun, rfl, rfl, log_text hrun⟩

/-! ## Stopping -/

namespace AsyncLogging

variable {s u v t : AsyncLogging}

/-- `stop` has cleared `running_`. -/
structure Cleared (s : AsyncLogging) : Prop where
  inv : s.Inv
  running : s.running = false
  stopCall : s.stopCall = .cleared ∨ s.stopCall = .returned

/-- After `running_` is cleared, the thread takes all the text or none, and all of it only
once. -/
theorem Cleared.step (h : s.Cleared) {l : LogStep}
    (he : (asyncLogging.restrict FewCollected).enabled s l) (hx : asyncLogging.exec s l = .ok u) :
    u.Cleared ∧
    ((s.thread.WillCollect ∧ u.thread.taken = s.text ∧ ¬u.thread.WillCollect) ∨
      (u.thread.taken = s.thread.taken ∧ (u.thread.WillCollect ↔ s.thread.WillCollect))) := by
  have hinv : u.Inv := by
    obtain ⟨u', hu', hinv⟩ := Inv.step h.inv he.1
    obtain rfl := Except.ok.inj (hx.symm.trans hu')
    exact hinv
  obtain ⟨he, hfew⟩ := he
  cases l with
  | append logline =>
    obtain ⟨-, hthread, hrunning, hstop⟩ := h.inv.append_text hx
    exact ⟨⟨hinv, hrunning.trans h.running, by rw [hstop]; exact h.stopCall⟩,
      .inr (by rw [hthread]; simp)⟩
  | background now =>
    obtain ⟨hwill, rfl⟩ | ⟨t, rfl, htaken, hkeep, hwill⟩ := h.inv.threadFunc_cases hfew hx
    · exact ⟨⟨hinv, h.running, h.stopCall⟩,
        .inl ⟨hwill, (h.inv.collect_taken hwill).1, by simp [collect, LogThread.WillCollect]⟩⟩
    · refine ⟨⟨hinv, h.running, h.stopCall⟩, .inr ⟨htaken, fun ht => ?_, hkeep⟩⟩
      exact (hwill ht).resolve_right (by simp [h.running])
  | start =>
    have hnot := h.inv.stopping.early (.inl he)
    rcases h.stopCall with hstop | hstop <;> simp [hstop] at hnot
  | stopCall =>
    have hnot : s.stopCall = .notCalled := he.1
    rcases h.stopCall with hstop | hstop <;> simp [hstop] at hnot
  | stopClear =>
    have hnot : s.stopCall = .called := he
    rcases h.stopCall with hstop | hstop <;> simp [hstop] at hnot
  | stopJoin =>
    obtain rfl := Except.ok.inj hx
    exact ⟨⟨hinv, h.running, .inr rfl⟩, .inr ⟨rfl, .rfl⟩⟩

/-- From the moment `running_` is cleared, the thread takes the text of that moment if it will
collect, and otherwise what it has taken already. -/
theorem Cleared.run (h : s.Cleared) {ls : List LogStep}
    (hrun : (asyncLogging.restrict FewCollected).Run s ls t) :
    t.Cleared ∧ s.text <+: t.text ∧
      (s.thread.WillCollect → t.thread.WillCollect ∨ s.text <+: t.thread.taken) ∧
      (¬s.thread.WillCollect → ¬t.thread.WillCollect ∧ t.thread.taken = s.thread.taken) := by
  induction hrun with
  | nil => exact ⟨h, List.prefix_rfl, .inl, fun hwill => ⟨hwill, rfl⟩⟩
  | @snoc _ u v l _ he hx ih =>
    obtain ⟨hu, htext, hall, hnone⟩ := ih
    have hgrow : u.text <+: v.text := hu.inv.step_text_isPrefix he hx
    obtain ⟨hv, hstep⟩ := hu.step he hx
    refine ⟨hv, htext.trans hgrow, fun hs => ?_, fun hs => ?_⟩
    · obtain ⟨-, htaken, -⟩ | ⟨htaken, hiff⟩ := hstep
      · rw [htaken]
        exact .inr htext
      · rw [htaken, hiff]
        exact hall hs
    · obtain ⟨hwill, -⟩ | ⟨htaken, hiff⟩ := hstep
      · exact absurd hwill (hnone hs).1
      · rw [htaken, hiff]
        exact hnone hs

/-- When `stop` has returned, what the thread has taken is written. -/
theorem Inv.taken_of_returned (h : s.Inv) (hreturned : s.stopCall = .returned) :
    ¬s.thread.WillCollect ∧ s.thread.taken = s.thread.output := by
  have hplace := h.stopping.late hreturned
  exact ⟨by simp [LogThread.WillCollect, hplace],
    LogThread.taken_eq_output (by simp [LogThread.unwritten, hplace])⟩

/-- The steps of `stop`, and only they, move its call on. -/
theorem Inv.step_stopCall (h : s.Inv) {l : LogStep}
    (he : (asyncLogging.restrict FewCollected).enabled s l) (hx : asyncLogging.exec s l = .ok u) :
    u.stopCall = s.stopCall ∨ (l = .stopCall ∧ u.stopCall = .called) ∨
      (l = .stopClear ∧ u.stopCall = .cleared) ∨
      (s.stopCall = .cleared ∧ u.stopCall = .returned) := by
  obtain ⟨he, hfew⟩ := he
  cases l with
  | append logline => exact .inl (h.append_text hx).2.2.2
  | background now =>
    obtain ⟨-, rfl⟩ | ⟨t, rfl, -⟩ := h.threadFunc_cases hfew hx
    · exact .inl rfl
    · exact .inl rfl
  | start =>
    obtain rfl := Except.ok.inj hx
    exact .inl rfl
  | stopCall =>
    have hrun : s.running = true := (h.stopping.running he.2.1).mpr (.inl he.1)
    obtain rfl := Except.ok.inj hx
    exact .inr (.inl ⟨rfl, by simp [hrun]⟩)
  | stopClear =>
    obtain rfl := Except.ok.inj hx
    exact .inr (.inr (.inl ⟨rfl, rfl⟩))
  | stopJoin =>
    obtain rfl := Except.ok.inj hx
    exact .inr (.inr (.inr ⟨he.1, rfl⟩))

/-- `stop` returns after it has been called and has cleared `running_`. -/
theorem exists_stop {ls : List LogStep}
    (hrun : (asyncLogging.restrict FewCollected).Run .new ls t)
    (hreturned : t.stopCall = .returned) :
    ∃ pre mid post, ls = pre ++ .stopCall :: (mid ++ .stopClear :: post) := by
  have hkeeps : (asyncLogging.restrict FewCollected).Keeps Inv := fun _ _ h he => Inv.step h he.1
  obtain ⟨pre, l, rest, u, v, rfl, hu, hnot, he, hx, hv, hrest⟩ :=
    hrun.exists_change (P := fun s => s.stopCall = .notCalled) rfl (by simp [hreturned])
  have hinv : u.Inv := hkeeps.run .new hu
  obtain ⟨rfl, hcalled⟩ : l = .stopCall ∧ v.stopCall = .called := by
    rcases hinv.step_stopCall he hx with hsame | hcall | ⟨rfl, -⟩ | ⟨hcleared, -⟩
    · exact absurd (hsame.trans hnot) hv
    · exact hcall
    · exact absurd (hnot.symm.trans he.1) (by decide)
    · exact absurd (hnot.symm.trans hcleared) (by decide)
  obtain ⟨mid, l, post, u', v', rfl, hu', hcalled', he', hx', hv', -⟩ :=
    hrest.exists_change (P := fun s => s.stopCall = .called) hcalled (by simp [hreturned])
  have hinv' : u'.Inv := hkeeps.run .new ((Machine.Run.snoc hu he hx).trans hu')
  obtain rfl : l = .stopClear := by
    rcases hinv'.step_stopCall he' hx' with hsame | ⟨-, hcall⟩ | ⟨hclear, -⟩ | ⟨hcleared, -⟩
    · exact absurd (hsame.trans hcalled') hv'
    · exact absurd hcall hv'
    · exact hclear
    · exact absurd (hcalled'.symm.trans hcleared) (by decide)
  exact ⟨pre, mid, post, rfl⟩

/-- The text only grows. -/
theorem Inv.text_isPrefix (h : s.Inv) {ls : List LogStep}
    (hrun : (asyncLogging.restrict FewCollected).Run s ls t) : t.Inv ∧ s.text <+: t.text := by
  induction hrun with
  | nil => exact ⟨h, List.prefix_rfl⟩
  | snoc _ he hx ih =>
    refine ⟨?_, ih.2.trans (ih.1.step_text_isPrefix he hx)⟩
    obtain ⟨u, hu, hinv⟩ := Inv.step ih.1 he.1
    obtain rfl := Except.ok.inj (hx.symm.trans hu)
    exact hinv

theorem gentle_of_shortLines {ls : List LogStep}
    (hrun : (asyncLogging.restrict FewCollected).Run s ls t) (hshort : ShortLines ls) :
    (asyncLogging.restrict Gentle).Run s ls t := by
  induction hrun with
  | nil => exact .nil
  | @snoc _ _ _ l _ he hx ih =>
    obtain ⟨hls, hl⟩ := List.forall_mem_append.mp hshort
    exact .snoc (ih hls) ⟨he.1, he.2.gentle (hl l (List.mem_singleton_self l))⟩ hx

end AsyncLogging

/-- In a run in which no iteration collects more than 25 buffers and `stop` returns, `stop` is
called and clears `running_`. If the lines before the call fit into a buffer, they are written if
and only if, where `running_` is cleared, the thread will still collect or has taken them. -/
theorem stop_drains_iff {ls : List LogStep} {t : AsyncLogging}
    (hrun : (asyncLogging.restrict FewCollected).Run .new ls t)
    (hreturned : t.stopCall = .returned) :
    (∃ pre mid post, ls = pre ++ .stopCall :: (mid ++ .stopClear :: post)) ∧
    ∀ pre mid post u, ls = pre ++ .stopCall :: (mid ++ .stopClear :: post) → ShortLines pre →
      asyncLogging.Run .new (pre ++ .stopCall :: mid) u →
      (appendedText pre <+: t.thread.output ↔
        u.thread.WillCollect ∨ appendedText pre <+: u.thread.taken) := by
  refine ⟨AsyncLogging.exists_stop hrun hreturned, fun pre mid post u hls hshort hu => ?_⟩
  have hsplit : ls = (pre ++ .stopCall :: mid) ++ [.stopClear] ++ post := by simp [hls]
  rw [hsplit] at hrun
  obtain ⟨v, hv, hpost⟩ := Machine.run_append_iff.mp hrun
  obtain ⟨u', hu', he, hx⟩ := Machine.run_snoc_iff.mp hv
  obtain rfl : u = u' := hu.det hu'.of_restrict
  obtain ⟨w, hpre, hmid⟩ := Machine.run_append_iff.mp hu'
  obtain ⟨hinv, hbefore⟩ := (AsyncLogging.Inv.step.run .new hpre.of_restrict).text_isPrefix hmid
  rw [AsyncLogging.text_of_run (AsyncLogging.gentle_of_shortLines hpre hshort)] at hbefore
  have hcleared : v.Cleared := by
    have hv : v.Inv := AsyncLogging.Inv.step.run .new hv.of_restrict
    obtain rfl := Except.ok.inj hx
    exact ⟨hv, rfl, .inl rfl⟩
  obtain ⟨ht, -, hall, hnone⟩ := hcleared.run hpost
  obtain rfl := Except.ok.inj hx
  obtain ⟨hexited, hwritten⟩ := ht.inv.taken_of_returned hreturned
  rw [hwritten] at hall hnone
  by_cases hwill : u.thread.WillCollect
  · exact ⟨fun _ => .inl hwill, fun _ => hbefore.trans ((hall hwill).resolve_left hexited)⟩
  · rw [(hnone hwill).2, or_iff_right hwill]

/-- A line is appended while the thread writes what it collected before, and `stop` is called.
The thread ends without collecting the line. -/
theorem stop_loses_line : ∃ t,
    (asyncLogging.restrict FewCollected).Run .new [.start, .background [], .background [],
      .background [], .background [], .append (ascii "a\n"), .stopCall, .stopClear,
      .background [], .background [], .background [], .background [], .background [],
      .stopJoin] t ∧
    t.stopCall = .returned ∧ t.thread.output = [] ∧ ¬ascii "a\n" <+: t.thread.output := by
  have hrun : (asyncLogging.restrict FewCollected).Run .new [.start, .background [], .background [],
      .background [], .background [], .append (ascii "a\n"), .stopCall, .stopClear,
      .background [], .background [], .background [], .background [], .background [],
      .stopJoin] _ := .of_play rfl
  exact ⟨_, hrun, rfl, rfl, by decide⟩

/-- The same line is written when the thread is waiting. -/
theorem stop_drains_waiting : ∃ t,
    (asyncLogging.restrict FewCollected).Run .new [.start, .background [], .background [],
      .background [], .append (ascii "a\n"), .stopCall, .stopClear, .background [],
      .background [], .background [], .background [], .background [], .background [],
      .stopJoin] t ∧
    t.stopCall = .returned ∧ ascii "a\n" <+: t.thread.output := by
  have hrun : (asyncLogging.restrict FewCollected).Run .new [.start, .background [], .background [],
      .background [], .append (ascii "a\n"), .stopCall, .stopClear, .background [],
      .background [], .background [], .background [], .background [], .background [],
      .stopJoin] _ := .of_play rfl
  have hu : asyncLogging.Run .new [.start, .background [], .background [],
      .background [], .append (ascii "a\n"), .stopCall] _ := .of_play rfl
  obtain ⟨-, hiff⟩ := stop_drains_iff hrun rfl
  exact ⟨_, hrun, rfl, (hiff [.start, .background [], .background [], .background [],
    .append (ascii "a\n")] [] _ _ rfl (by decide) hu).mpr (.inl (.inr rfl))⟩

end Tmuduo
