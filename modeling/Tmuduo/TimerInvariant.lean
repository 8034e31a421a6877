import Tmuduo.TimerEntries

/-!
# What the timer queue keeps

`TimerInv` is what the queue keeps while callbacks cancel neither their own timer nor one of
their batch that has not run. Its first part relates the containers at every point of
`handleRead`, as `EntriesInv` does, and says that the timers of the batch are there. Its second
part is about the whole run : what was cancelled is gone, a one-shot timer runs once, a repeating
timer stays.

`TimerInv.step` proves both for every step, and that no step fails.
-/

set_option autoImplicit false

namespace Tmuduo

namespace TimerPc

/-- The reading of the clock that the batch was taken at. -/
def now : TimerPc → Timestamp
  | outside => 0
  | batch now _ => now
  | calling now _ _ => now

end TimerPc

/-! ## The representation -/

/-- How the containers are related, wherever `handleRead` is. -/
structure QueueInv (s : TimerQueue) : Prop where
  stored : ∀ id v, s.timers.lookup id = some v → ∃ timer, v = some timer ∧ timer.sequence = id ∧
    id < INT64_MAX ∧ ∃ a ∈ s.added, a.sequence = id ∧ a.repeats = timer.repeats
  entries : ∀ e id, timerEntry e id ∈ s.timerEntries ↔
    id ∉ s.pc.pending ∧ ∃ timer, s.timers.lookup id = some (some timer) ∧ timer.expiration = e
  batch : ∀ x ∈ s.pc.rest, x.first ≤ s.pc.now ∧
    ∃ timer, s.timers.lookup x.second = some (some timer) ∧ timer.expiration = x.first
  current : ∀ id, s.pc.current = some id → id ∈ s.timers
  nodup : s.pc.pending.Nodup

namespace QueueInv

variable {s : TimerQueue}

theorem new (clock : Timestamp) : QueueInv (.new clock) where
  stored id v h := by simp [TimerQueue.new] at h
  entries e id := by simp [TimerQueue.new]
  batch x h := by simp [TimerQueue.new, TimerPc.rest] at h
  current id h := by simp [TimerQueue.new, TimerPc.current] at h
  nodup := List.nodup_nil

/-- The timers of the batch are stored. -/
theorem mem_of_pending (h : QueueInv s) {id : TimerId} (hid : id ∈ s.pc.pending) :
    id ∈ s.timers := by
  rcases List.mem_append.mp hid with hid | hid
  · exact h.current id (by simpa using hid)
  · obtain ⟨x, hx, rfl⟩ := List.mem_map.mp hid
    obtain ⟨-, timer, htimer, -⟩ := h.batch x hx
    exact mem_of_lookup htimer

theorem toEntries (h : QueueInv s) : EntriesInv s where
  stored := h.stored
  entries := h.entries
  known id hid := by
    obtain ⟨v, hv⟩ := Finmap.mem_iff.mp (h.mem_of_pending hid)
    obtain ⟨-, -, -, -, a, ha, hseq, -⟩ := h.stored id v hv
    exact ⟨a, ha, hseq⟩
  nodup := h.nodup

/-- `EntriesInv`, with what it leaves open about the batch. -/
theorem of_entries (h : EntriesInv s)
    (batch : ∀ x ∈ s.pc.rest, x.first ≤ s.pc.now ∧
      ∃ timer, s.timers.lookup x.second = some (some timer) ∧ timer.expiration = x.first)
    (current : ∀ id, s.pc.current = some id → id ∈ s.timers) : QueueInv s :=
  ⟨h.stored, h.entries, batch, current, h.nodup⟩

theorem addTimer (h : QueueInv s) {timer : Timer} (garbage : Bool)
    (hmax : timer.sequence < INT64_MAX) (hnew : ∀ a ∈ s.added, a.sequence ≠ timer.sequence) :
    QueueInv (s.addTimerInLoop timer garbage) := by
  have hnone := h.toEntries.lookup_fresh hnew
  refine .of_entries (h.toEntries.addTimer garbage hmax hnew) (fun x hx => ?_) fun id hid => ?_
  · obtain ⟨hdue, t, ht, hexp⟩ := h.batch x hx
    refine ⟨hdue, t, ?_, hexp⟩
    simp only [TimerQueue.addTimerInLoop]
    rw [lookup_insert_eq, if_neg, ht]
    intro hid
    rw [← hid, ht] at hnone
    cases hnone
  · exact Finmap.mem_insert.mpr (Or.inr (h.current id hid))

/-- A timer outside the batch is erased from both containers. -/
theorem cancel (h : QueueInv s) {u : TimerQueue} {id : TimerId} (hid : id ∈ s.timers)
    (hpending : id ∉ s.pc.pending) (hu : s.cancelInLoop id = .ok u) : QueueInv u := by
  have hentries := h.toEntries.cancel hid hu
  obtain ⟨timer, htimer, heq⟩ := h.toEntries.cancelInLoop_eq hid
  obtain rfl := Except.ok.inj (heq.symm.trans hu)
  refine .of_entries hentries (fun x hx => ?_) fun id' hid' => ?_
  · obtain ⟨hdue, t, ht, hexp⟩ := h.batch x hx
    refine ⟨hdue, t, ?_, hexp⟩
    rw [lookup_erase_eq, if_neg, ht]
    rintro rfl
    exact hpending (List.mem_append_right _ (List.mem_map_of_mem hx))
  · rw [Finmap.mem_erase]
    refine ⟨?_, h.current id' hid'⟩
    rintro rfl
    exact hpending (List.mem_append_left _ (by simp [hid']))

/-- The expired entries become the batch. -/
theorem handleRead (h : QueueInv s) (hpc : s.pc = .outside) {u : TimerQueue}
    (hu : s.handleRead = .ok u) : QueueInv u := by
  have hentries := h.toEntries.handleRead hpc hu
  obtain rfl := Except.ok.inj ((h.toEntries.handleRead_eq hpc).symm.trans hu)
  exact .of_entries hentries (fun x hx => (h.toEntries.mem_expired hpc).mp hx) nofun

/-- The next timer of the batch is there and is due, and the loop runs it. -/
theorem startCallback_eq (h : QueueInv s) {now : Timestamp} {e : TimerEntry}
    {rest : List TimerEntry} (hpc : s.pc = .batch now (e :: rest)) :
    ∃ timer, s.timers.lookup e.second = some (some timer) ∧ timer.expiration ≤ now ∧
      s.startCallback = .ok { s with
        pc := .calling now e.second rest
        starts := s.starts ++ [⟨e.second, timer.expiration, now⟩] } := by
  have hbatch := h.batch
  rw [hpc] at hbatch
  obtain ⟨hdue, timer, htimer, hexp⟩ := hbatch e List.mem_cons_self
  refine ⟨timer, htimer, hexp ▸ hdue, ?_⟩
  simp only [TimerQueue.startCallback, hpc, htimer]

/-- The first entry of the batch becomes the current timer. -/
theorem startCallback (h : QueueInv s) {now : Timestamp} {e : TimerEntry}
    {rest : List TimerEntry} (hpc : s.pc = .batch now (e :: rest)) {u : TimerQueue}
    (hu : s.startCallback = .ok u) : QueueInv u := by
  have hentries := h.toEntries.startCallback hpc hu
  have hbatch := h.batch
  rw [hpc] at hbatch
  obtain ⟨timer, htimer, -, heq⟩ := h.startCallback_eq hpc
  obtain rfl := Except.ok.inj (heq.symm.trans hu)
  refine .of_entries hentries (fun x hx => hbatch x (List.mem_cons_of_mem e hx)) ?_
  rintro id hid
  obtain rfl := Option.some.inj hid
  exact mem_of_lookup htimer

/-- The timer whose callback returns is there. -/
theorem lookup_current (h : QueueInv s) {now : Timestamp} {id : TimerId}
    {rest : List TimerEntry} (hpc : s.pc = .calling now id rest) :
    ∃ timer, s.timers.lookup id = some (some timer) ∧ timer.sequence = id := by
  have hcurrent := h.current id (by rw [hpc]; rfl)
  obtain ⟨v, hv⟩ := Finmap.mem_iff.mp hcurrent
  obtain ⟨timer, rfl, hseq, -⟩ := h.stored id v hv
  exact ⟨timer, hv, hseq⟩

section EndCallback

variable (h : QueueInv s) {now : Timestamp} {id : TimerId} {rest : List TimerEntry}
  (hpc : s.pc = .calling now id rest)

include h hpc

theorem calling_batch {x : TimerEntry} (hx : x ∈ rest) : x.second ≠ id ∧ x.first ≤ now ∧
    ∃ timer, s.timers.lookup x.second = some (some timer) ∧ timer.expiration = x.first := by
  have hbatch := h.batch
  rw [hpc] at hbatch
  refine ⟨?_, hbatch x hx⟩
  rintro rfl
  exact (h.toEntries.calling_nodup hpc).1 (List.mem_map_of_mem hx)

/-- A repeating timer goes back into the entries. -/
theorem restart {timer timer' : Timer} (htimer : s.timers.lookup id = some (some timer))
    (hseq : timer'.sequence = timer.sequence)
    (hrepeats : timer'.repeats = timer.repeats) :
    QueueInv { s with
      timers := s.timers.insert id (some timer')
      timerEntries := s.timerEntries.insert (timerEntry timer'.expiration timer'.sequence)
      pc := .batch now rest } := by
  refine .of_entries (h.toEntries.restart hpc htimer hseq hrepeats) (fun x hx => ?_) nofun
  obtain ⟨hne, hdue, t, ht, hexp⟩ := h.calling_batch hpc hx
  exact ⟨hdue, t, by simp only [lookup_insert_eq, if_neg hne, ht], hexp⟩

/-- A one-shot timer is erased. -/
theorem retire : QueueInv { s with timers := s.timers.erase id, pc := .batch now rest } := by
  refine .of_entries (h.toEntries.retire hpc) (fun x hx => ?_) nofun
  obtain ⟨hne, hdue, t, ht, hexp⟩ := h.calling_batch hpc hx
  exact ⟨hdue, t, by simp only [lookup_erase_eq, if_neg hne, ht], hexp⟩

end EndCallback

theorem finish (h : QueueInv s) {now : Timestamp} (hpc : s.pc = .batch now []) :
    QueueInv s.finish :=
  .of_entries (h.toEntries.finish hpc) nofun nofun

theorem tick (h : QueueInv s) (fd : Timerfd) (now : Timestamp) :
    QueueInv { s with clock := now, timerfd := fd } :=
  ⟨h.stored, h.entries, h.batch, h.current, h.nodup⟩

end QueueInv

/-! ## The history -/

/-- How often the callback of a timer has started. -/
def TimerQueue.startsOf (s : TimerQueue) (id : TimerId) : ℕ :=
  s.starts.countP fun st => st.timerId = id

/-- What the run has done with the timers that were added. -/
structure HistoryInv (s : TimerQueue) : Prop where
  ids : (s.added.map Timer.sequence).Nodup
  gone : ∀ id ∈ s.cancelled, id ∉ s.timers ∧ ∃ a ∈ s.added, a.sequence = id
  due : ∀ st ∈ s.starts, st.expiration ≤ st.now ∧ ∃ a ∈ s.added, a.sequence = st.timerId
  once : ∀ a ∈ s.added, a.repeats = false → s.startsOf a.sequence ≤ 1 ∧
    (0 < s.startsOf a.sequence → a.sequence ∉ s.timers ∨ s.pc.current = some a.sequence)
  kept : ∀ a ∈ s.added, a.repeats = true → a.sequence ∈ s.cancelled ∨ a.sequence ∈ s.timers

/-- What holds wherever a run leads. -/
structure TimerInv (s : TimerQueue) : Prop where
  queue : QueueInv s
  history : HistoryInv s

namespace TimerInv

variable {s : TimerQueue}

theorem new (clock : Timestamp) : TimerInv (.new clock) where
  queue := .new clock
  history := by constructor <;> simp [TimerQueue.new]

/-- The timer that was added under an id is of the kind that is stored under it. -/
theorem repeats_eq (h : TimerInv s) {a timer : Timer} (ha : a ∈ s.added)
    (htimer : s.timers.lookup a.sequence = some (some timer)) : a.repeats = timer.repeats := by
  obtain ⟨t, ht, -, -, a', ha', hseq, hrep⟩ := h.queue.stored _ _ htimer
  obtain rfl := Option.some.inj ht
  rw [List.inj_on_of_nodup_map h.history.ids ha ha' hseq.symm, hrep]

/-- A timer that was not added has not started. -/
theorem startsOf_fresh (h : TimerInv s) {id : TimerId} (hid : ∀ a ∈ s.added, a.sequence ≠ id) :
    s.startsOf id = 0 := by
  refine List.countP_eq_zero.mpr fun st hst => ?_
  obtain ⟨-, a, ha, hseq⟩ := h.history.due st hst
  simpa [← hseq] using hid a ha

theorem addTimer (h : TimerInv s) {timer : Timer} (garbage : Bool)
    (hmax : timer.sequence < INT64_MAX) (hnew : ∀ a ∈ s.added, a.sequence ≠ timer.sequence) :
    TimerInv (s.addTimerInLoop timer garbage) := by
  refine ⟨h.queue.addTimer garbage hmax hnew, ?_, fun id hid => ?_, fun st hst => ?_,
    fun a ha hrep => ?_, fun a ha hrep => ?_⟩
  · simp only [TimerQueue.addTimerInLoop, List.map_append, List.map_singleton]
    refine List.nodup_append.mpr ⟨h.history.ids, by simp, ?_⟩
    rintro _ hid _ hid' rfl
    obtain ⟨a, ha, hseq⟩ := List.mem_map.mp hid
    exact hnew a ha (hseq.trans (List.mem_singleton.mp hid'))
  · obtain ⟨hout, a, ha, rfl⟩ := h.history.gone id hid
    refine ⟨?_, a, List.mem_append_left _ ha, rfl⟩
    simpa [TimerQueue.addTimerInLoop, hnew a ha] using hout
  · obtain ⟨hdue, a, ha, hseq⟩ := h.history.due st hst
    exact ⟨hdue, a, List.mem_append_left _ ha, hseq⟩
  · rcases List.mem_append.mp ha with ha | ha
    · obtain ⟨hle, hover⟩ := h.history.once a ha hrep
      refine ⟨hle, fun hpos => ?_⟩
      simpa [TimerQueue.addTimerInLoop, hnew a ha] using hover hpos
    · obtain rfl := List.mem_singleton.mp ha
      have hzero : (s.addTimerInLoop a garbage).startsOf a.sequence = 0 := h.startsOf_fresh hnew
      exact ⟨by omega, fun hpos => by omega⟩
  · rcases List.mem_append.mp ha with ha | ha
    · refine (h.history.kept a ha hrep).imp_right fun hmem => ?_
      exact Finmap.mem_insert.mpr (Or.inr hmem)
    · obtain rfl := List.mem_singleton.mp ha
      exact Or.inr (Finmap.mem_insert.mpr (Or.inl rfl))

/-- A `cancel` outside the batch succeeds. -/
theorem cancel (h : TimerInv s) {id : TimerId} (hid : id ∈ s.timers)
    (hpending : id ∉ s.pc.pending) : ∃ u, s.cancelInLoop id = .ok u ∧ TimerInv u := by
  obtain ⟨timer, htimer, heq⟩ := h.queue.toEntries.cancelInLoop_eq hid
  refine ⟨_, heq, h.queue.cancel hid hpending heq, h.history.ids, fun id' hid' => ?_,
    h.history.due, fun a ha hrep => ?_, fun a ha hrep => ?_⟩
  · rw [Finmap.mem_erase]
    rcases List.mem_append.mp hid' with hid' | hid'
    · obtain ⟨hout, ha⟩ := h.history.gone id' hid'
      exact ⟨fun hmem => hout hmem.2, ha⟩
    · obtain rfl := List.mem_singleton.mp hid'
      obtain ⟨-, -, -, -, a, ha, hseq, -⟩ := h.queue.stored _ _ htimer
      exact ⟨fun hmem => hmem.1 rfl, a, ha, hseq⟩
  · obtain ⟨hle, hover⟩ := h.history.once a ha hrep
    refine ⟨hle, fun hpos => (hover hpos).imp_left fun hout hmem => ?_⟩
    exact hout (Finmap.mem_erase.mp hmem).2
  · by_cases hseq : a.sequence = id
    · exact Or.inl (by simp [hseq])
    · refine (h.history.kept a ha hrep).imp (fun hmem => List.mem_append_left _ hmem) fun hmem => ?_
      exact Finmap.mem_erase.mpr ⟨hseq, hmem⟩

/-- A step that moves `handleRead` on, and no callback starts or ends in it. -/
theorem of_queue (h : TimerInv s) {u : TimerQueue} (hu : QueueInv u) (htimers : u.timers = s.timers)
    (hadded : u.added = s.added) (hcancelled : u.cancelled = s.cancelled)
    (hstarts : u.starts = s.starts) (hcurrent : u.pc.current = s.pc.current) : TimerInv u := by
  refine ⟨hu, ?_⟩
  obtain ⟨hids, hgone, hdue, honce, hkept⟩ := h.history
  constructor
  · rwa [hadded]
  · rwa [hcancelled, htimers, hadded]
  · rwa [hstarts, hadded]
  · unfold TimerQueue.startsOf at honce ⊢
    rwa [hadded, hstarts, htimers, hcurrent]
  · rwa [hadded, hcancelled, htimers]

theorem handleRead (h : TimerInv s) (hpc : s.pc = .outside) :
    ∃ u, s.handleRead = .ok u ∧ TimerInv u := by
  have heq := h.queue.toEntries.handleRead_eq hpc
  exact ⟨_, heq, h.of_queue (h.queue.handleRead hpc heq) rfl rfl rfl rfl (by rw [hpc]; rfl)⟩

theorem startsOf_snoc {u : TimerQueue} {st : TimerStart} (hu : u.starts = s.starts ++ [st])
    (id : TimerId) : u.startsOf id = s.startsOf id + if st.timerId = id then 1 else 0 := by
  simp [TimerQueue.startsOf, hu, List.countP_singleton]

/-- The next callback of a batch starts. -/
theorem startCallback (h : TimerInv s) {now : Timestamp} {e : TimerEntry}
    {rest : List TimerEntry} (hpc : s.pc = .batch now (e :: rest)) :
    ∃ u, s.startCallback = .ok u ∧ TimerInv u ∧ u.pc = .calling now e.second rest := by
  obtain ⟨timer, htimer, hdue, heq⟩ := h.queue.startCallback_eq hpc
  refine ⟨_, heq, ⟨h.queue.startCallback hpc heq, h.history.ids, h.history.gone, fun st hst => ?_,
    fun a ha hrep => ?_, h.history.kept⟩, rfl⟩
  · rcases List.mem_append.mp hst with hst | hst
    · exact h.history.due st hst
    · obtain rfl := List.mem_singleton.mp hst
      obtain ⟨-, -, -, -, a, ha, hseq, -⟩ := h.queue.stored _ _ htimer
      exact ⟨hdue, a, ha, hseq⟩
  · obtain ⟨hle, hover⟩ := h.history.once a ha hrep
    have hcurrent : s.pc.current = none := by
      rw [hpc]
      rfl
    rw [startsOf_snoc (s := s) rfl]
    by_cases hseq : e.second = a.sequence
    · have hmem : a.sequence ∈ s.timers := hseq ▸ mem_of_lookup htimer
      have hzero : s.startsOf a.sequence = 0 := by
        by_contra hne
        rcases hover (Nat.pos_of_ne_zero hne) with hout | hrunning
        · exact hout hmem
        · rw [hcurrent] at hrunning
          cases hrunning
      exact ⟨by simp [hzero, hseq], fun _ => Or.inr (congrArg some hseq)⟩
    · rw [if_neg hseq]
      refine ⟨hle, fun hpos => Or.inl ((hover hpos).resolve_right ?_)⟩
      rw [hcurrent]
      nofun

/-- A repeating timer is entered again. -/
theorem endCallback_repeats {now : Timestamp} {id : TimerId} {rest : List TimerEntry}
    {timer : Timer} (hpc : s.pc = .calling now id rest)
    (htimer : s.timers.lookup id = some (some timer)) (hrep : timer.repeats = true) :
    s.endCallback = .ok { s with
      timers := s.timers.insert id (some (timer.restart s.clock))
      timerEntries := s.timerEntries.insert
        (timerEntry (timer.restart s.clock).expiration (timer.restart s.clock).sequence)
      pc := .batch now rest } := by
  simp [TimerQueue.endCallback, hpc, htimer, hrep]

/-- A one-shot timer is erased. -/
theorem endCallback_one_shot {now : Timestamp} {id : TimerId} {rest : List TimerEntry}
    {timer : Timer} (hpc : s.pc = .calling now id rest)
    (htimer : s.timers.lookup id = some (some timer)) (hrep : timer.repeats = false) :
    s.endCallback = .ok { s with timers := s.timers.erase id, pc := .batch now rest } := by
  simp [TimerQueue.endCallback, hpc, htimer, hrep]

theorem endCallback (h : TimerInv s) {now : Timestamp} {id : TimerId} {rest : List TimerEntry}
    (hpc : s.pc = .calling now id rest) :
    ∃ u, s.endCallback = .ok u ∧ TimerInv u ∧ u.pc = .batch now rest := by
  obtain ⟨timer, htimer, hseq⟩ := h.queue.lookup_current hpc
  have hmem : id ∈ s.timers := mem_of_lookup htimer
  have hrepeats : ∀ a ∈ s.added, a.sequence = id → a.repeats = timer.repeats := by
    rintro a ha rfl
    exact h.repeats_eq ha htimer
  cases hrep : timer.repeats with
  | true =>
    -- the ids of the map stay the same
    have hkeys : ∀ id', id' ∈ s.timers.insert id (some (timer.restart s.clock)) ↔
        id' ∈ s.timers := by
      intro id'
      rw [Finmap.mem_insert]
      exact ⟨fun h => h.elim (fun heq => heq ▸ hmem) fun h => h, Or.inr⟩
    refine ⟨_, endCallback_repeats hpc htimer hrep, ⟨h.queue.restart hpc htimer rfl rfl,
      h.history.ids, fun id' hid' => ?_, h.history.due, fun a ha hshot => ?_,
      fun a ha hrep' => ?_⟩, rfl⟩
    · rw [hkeys]
      exact h.history.gone id' hid'
    · obtain ⟨hle, hover⟩ := h.history.once a ha hshot
      refine ⟨hle, fun hpos => ?_⟩
      rw [hkeys]
      refine (hover hpos).imp_right fun hcurrent => ?_
      rw [hpc] at hcurrent
      have hshot' := hrepeats a ha (Option.some.inj hcurrent).symm
      rw [hshot, hrep] at hshot'
      cases hshot'
    · rw [hkeys]
      exact h.history.kept a ha hrep'
  | false =>
    refine ⟨_, endCallback_one_shot hpc htimer hrep, ⟨h.queue.retire hpc, h.history.ids,
      fun id' hid' => ?_, h.history.due, fun a ha hshot => ?_, fun a ha hrep' => ?_⟩, rfl⟩
    · obtain ⟨hout, ha⟩ := h.history.gone id' hid'
      exact ⟨fun hmem => hout (Finmap.mem_erase.mp hmem).2, ha⟩
    · obtain ⟨hle, hover⟩ := h.history.once a ha hshot
      refine ⟨hle, fun hpos => Or.inl fun hin => ?_⟩
      obtain ⟨hne, hin⟩ := Finmap.mem_erase.mp hin
      rcases hover hpos with hout | hcurrent
      · exact hout hin
      · rw [hpc] at hcurrent
        exact hne (Option.some.inj hcurrent).symm
    · refine (h.history.kept a ha hrep').imp_right fun hin => Finmap.mem_erase.mpr ⟨?_, hin⟩
      intro heq
      have hrepeats' := hrepeats a ha heq
      rw [hrep, hrep'] at hrepeats'
      cases hrepeats'

theorem finish (h : TimerInv s) {now : Timestamp} (hpc : s.pc = .batch now []) :
    TimerInv s.finish :=
  h.of_queue (h.queue.finish hpc) rfl rfl rfl rfl (by rw [hpc]; rfl)

/-- Every step of a use that cancels outside the batch succeeds and keeps the invariant. -/
theorem step : (timerMachine.restrict CancelsOutsideBatch).Keeps TimerInv := by
  intro s l h he
  cases l with
  | addTimer timer garbage => exact ⟨_, rfl, h.addTimer garbage he.1.2.1 he.1.2.2⟩
  | cancel id => exact h.cancel he.1.2 he.2
  | handleRead => exact h.handleRead he.1
  | startCallback =>
    obtain ⟨now, e, rest, hpc⟩ := he.1
    obtain ⟨u, hu, hinv, -⟩ := h.startCallback hpc
    exact ⟨u, hu, hinv⟩
  | endCallback =>
    obtain ⟨now, id, rest, hpc⟩ := he.1
    obtain ⟨u, hu, hinv, -⟩ := h.endCallback hpc
    exact ⟨u, hu, hinv⟩
  | finish =>
    obtain ⟨now, hpc⟩ := he.1
    exact ⟨_, rfl, h.finish hpc⟩
  | tick now =>
    exact ⟨_, rfl, h.of_queue (h.queue.tick (s.timerfd.elapse now) now) rfl rfl rfl rfl rfl⟩

end TimerInv

theorem CancelsOutsideBatch.of_callbacks {s : TimerQueue} {l : TimerStep}
    (h : CancelsOutsideCallbacks s l) : CancelsOutsideBatch s l := by
  cases l with
  | cancel id =>
    have hpc : s.pc = .outside := h
    change id ∉ s.pc.pending
    rw [hpc]
    exact List.not_mem_nil
  | _ => trivial

/-- With callbacks that do not cancel, no step fails. Outside `handleRead` the entries are those
of the timers, and no stored timer is null. No callback starts before its timer expires. A
one-shot callback starts at most once, and its timer is then in neither container. Until it is
cancelled a repeating timer is in the map, and outside `handleRead` among the entries. -/
theorem timer_queue_firing {clock : Timestamp} {ls : List TimerStep} {t : TimerQueue}
    (hrun : (timerMachine.restrict CancelsOutsideCallbacks).Run (.new clock) ls t) :
    (∀ l, timerMachine.enabled t l → CancelsOutsideCallbacks t l →
      ∃ u, timerMachine.exec t l = .ok u) ∧
    (t.pc = .outside → (∀ e id, timerEntry e id ∈ t.timerEntries ↔
      ∃ timer, t.timers.lookup id = some (some timer) ∧ timer.expiration = e) ∧
      ∀ id, t.timers.lookup id ≠ some none) ∧
    (∀ st ∈ t.starts, st.expiration ≤ st.now) ∧
    (∀ a ∈ t.added, a.repeats = false → t.startsOf a.sequence ≤ 1 ∧
      (0 < t.startsOf a.sequence → t.pc.current ≠ some a.sequence →
        a.sequence ∉ t.timers ∧ ∀ e, timerEntry e a.sequence ∉ t.timerEntries)) ∧
    (∀ a ∈ t.added, a.repeats = true → a.sequence ∉ t.cancelled →
      ∃ timer, t.timers.lookup a.sequence = some (some timer) ∧
        (t.pc = .outside → timerEntry timer.expiration a.sequence ∈ t.timerEntries)) := by
  have h : TimerInv t := TimerInv.step.run (.new clock)
    (hrun.restrict_mono fun _ _ => CancelsOutsideBatch.of_callbacks)
  refine ⟨fun l he hl => ?_, fun hpc => ⟨fun e id => ?_, fun id hnull => ?_⟩,
    fun st hst => (h.history.due st hst).1, fun a ha hshot => ?_, fun a ha hrep hnot => ?_⟩
  · obtain ⟨u, hu, -⟩ := TimerInv.step h ⟨he, CancelsOutsideBatch.of_callbacks hl⟩
    exact ⟨u, hu⟩
  · exact h.queue.toEntries.mem_entries_outside hpc
  · obtain ⟨timer, htimer, -⟩ := h.queue.stored id none hnull
    cases htimer
  · obtain ⟨hle, hover⟩ := h.history.once a ha hshot
    refine ⟨hle, fun hpos hcurrent => ?_⟩
    have hout := (hover hpos).resolve_right hcurrent
    refine ⟨hout, fun e hmem => hout ?_⟩
    obtain ⟨-, timer, htimer, -⟩ := (h.queue.entries e a.sequence).mp hmem
    exact mem_of_lookup htimer
  · obtain ⟨v, hv⟩ := Finmap.mem_iff.mp ((h.history.kept a ha hrep).resolve_left hnot)
    obtain ⟨timer, rfl, -⟩ := h.queue.stored _ _ hv
    exact ⟨timer, hv, fun hpc => (h.queue.toEntries.mem_entries_outside hpc).mpr ⟨timer, hv, rfl⟩⟩

/-- A one-shot timer and a repeating one, which expire together. -/
theorem timer_queue_firing_two_timers : ∃ t,
    (timerMachine.restrict CancelsOutsideCallbacks).Run (.new 0)
      [.addTimer ⟨10, 0, false, 1⟩ false, .addTimer ⟨10, 5, true, 2⟩ false, .tick 10, .handleRead,
        .startCallback, .endCallback, .startCallback, .endCallback, .finish] t ∧
    t.pc = .outside ∧ t.startsOf 1 = 1 ∧
    ((∀ e id, timerEntry e id ∈ t.timerEntries ↔
      ∃ timer, t.timers.lookup id = some (some timer) ∧ timer.expiration = e) ∧
      ∀ id, t.timers.lookup id ≠ some none) := by
  have hrun : (timerMachine.restrict CancelsOutsideCallbacks).Run (.new 0)
      [.addTimer ⟨10, 0, false, 1⟩ false, .addTimer ⟨10, 5, true, 2⟩ false, .tick 10, .handleRead,
        .startCallback, .endCallback, .startCallback, .endCallback, .finish] _ := .of_play rfl
  exact ⟨_, hrun, rfl, rfl, (timer_queue_firing hrun).2.1 rfl⟩

end Tmuduo
