import Tmuduo.Lookup
import Tmuduo.TimerQueue

/-!
# The two containers of the timer queue

`EntriesInv` relates `timers_` and `timerEntries_` at every point of `handleRead`, whatever
callbacks do : a timer is in `timerEntries_` exactly when it is in `timers_` and the running batch
does not have it (`entries`). It is kept by every step that does not fail (`EntriesInv.step`).

`getExpired` looks for the lower bound of a sentry with the greatest id. `getExpired_splits` says
that this cuts the entries into those that have expired and those that have not.

`addTimerInLoop` tests `timers_.empty()` before it reads the first of `timerEntries_`. Inside a
batch the test may pass while there are no entries. `addTimer_guard_iff` : it does not if and only
if the running batch does not have all the timers; `addTimer_guard_fails` is one that has.
-/

set_option autoImplicit false

namespace Tmuduo

/-! ## Entries -/

theorem timerEntry_inj {e e' : Timestamp} {id id' : TimerId} :
    timerEntry e id = timerEntry e' id' ↔ e = e' ∧ id = id' := by
  simp [timerEntry]

@[simp] theorem first_timerEntry (e : Timestamp) (id : TimerId) : (timerEntry e id).first = e :=
  rfl

@[simp] theorem second_timerEntry (e : Timestamp) (id : TimerId) : (timerEntry e id).second = id :=
  rfl

theorem timerEntry_eta (x : TimerEntry) : timerEntry x.first x.second = x :=
  rfl

/-- The entries before the sentry are those that have expired. -/
theorem lt_sentry_iff {e now : Timestamp} {id : TimerId} (hid : id < INT64_MAX) :
    timerEntry e id < timerEntry now INT64_MAX ↔ e ≤ now := by
  unfold timerEntry
  rw [Prod.Lex.toLex_lt_toLex, le_iff_lt_or_eq]
  simp only [hid, and_true]

/-- `operator<` of `std::pair` : the second members count when neither of the first is less. -/
theorem timerEntry_lt_iff {x y : TimerEntry} :
    x < y ↔ x.first < y.first ∨ ¬y.first < x.first ∧ x.second < y.second := by
  rw [Prod.Lex.lt_iff, not_lt]
  change x.first < y.first ∨ x.first = y.first ∧ x.second < y.second ↔ _
  constructor
  · rintro (hlt | ⟨heq, hlt⟩)
    · exact Or.inl hlt
    · exact Or.inr ⟨heq.le, hlt⟩
  · rintro (hlt | ⟨hle, hlt⟩)
    · exact Or.inl hlt
    · rcases hle.lt_or_eq with hless | heq
      · exact Or.inl hless
      · exact Or.inr ⟨heq, hlt⟩

/-! ## The entries that have expired -/

section GetExpired

variable {s : TimerQueue} (hids : ∀ e ∈ s.timerEntries, e.second < INT64_MAX) {now : Timestamp}

include hids

theorem mem_below_sentry {e : TimerEntry} :
    e ∈ s.timerEntries.below (timerEntry now INT64_MAX) ↔ e ∈ s.timerEntries ∧ e.first ≤ now := by
  rw [OrderedSet.mem_below]
  exact and_congr_right fun he => lt_sentry_iff (hids e he)

theorem mem_dropBelow_sentry {e : TimerEntry} :
    e ∈ s.timerEntries.dropBelow (timerEntry now INT64_MAX) ↔
      e ∈ s.timerEntries ∧ now < e.first := by
  rw [OrderedSet.mem_dropBelow]
  refine and_congr_right fun he => ?_
  exact not_lt.symm.trans ((not_congr (lt_sentry_iff (hids e he))).trans not_le)

/-- The assertion of `getExpired` holds. -/
theorem getExpired_ok (now : Timestamp) :
    s.getExpired now = .ok (s.timerEntries.below (timerEntry now INT64_MAX),
      s.timerEntries.dropBelow (timerEntry now INT64_MAX)) := by
  have hassert : ∀ e ∈ (s.timerEntries.dropBelow (timerEntry now INT64_MAX)).min?,
      now < e.first := by
    intro e he
    exact ((mem_dropBelow_sentry hids).mp (OrderedSet.min?_mem he)).2
  simp [TimerQueue.getExpired, check_of _ hassert]

end GetExpired

/-- For every set of entries with ids below `INT64_MAX`, and every time : `getExpired` returns, its
assertion holds, the entries that have expired are returned in increasing order and each once, those
that have not are left, and none is lost. -/
theorem getExpired_splits (s : TimerQueue)
    (hids : ∀ e ∈ s.timerEntries, e.second < INT64_MAX) (now : Timestamp) :
    ∃ expired rest, s.getExpired now = .ok (expired, rest) ∧
      (∀ e, e ∈ expired ↔ e ∈ s.timerEntries ∧ e.first ≤ now) ∧
      expired.Pairwise (fun x y => x.first < y.first ∨ ¬y.first < x.first ∧ x.second < y.second) ∧
      expired.Nodup ∧
      (∀ e, e ∈ rest ↔ e ∈ s.timerEntries ∧ now < e.first) ∧
      expired ++ rest.toList = s.timerEntries.toList := by
  refine ⟨_, _, getExpired_ok hids now, fun e => mem_below_sentry hids, ?_, OrderedSet.below_nodup,
    fun e => mem_dropBelow_sentry hids, OrderedSet.below_append_dropBelow _⟩
  exact (OrderedSet.below_sorted _).imp fun h => timerEntry_lt_iff.mp h

/-- A queue with two timers that expire at 5, one that expires before, and one after. -/
def fourTimers : TimerQueue :=
  { TimerQueue.new 5 with
    timerEntries := (((OrderedSet.empty.insert (timerEntry 5 2)).insert (timerEntry 6 1)).insert
      (timerEntry 5 3)).insert (timerEntry 4 4) }

theorem getExpired_splits_equal_times : ∃ expired rest,
    fourTimers.getExpired 5 = .ok (expired, rest) ∧
    expired ++ rest.toList =
      [timerEntry 4 4, timerEntry 5 2, timerEntry 5 3, timerEntry 6 1] ∧
    timerEntry 5 3 ∈ expired ∧ timerEntry 6 1 ∈ rest := by
  have hentries : fourTimers.timerEntries.toList =
      [timerEntry 4 4, timerEntry 5 2, timerEntry 5 3, timerEntry 6 1] := by decide
  have hmem : ∀ e, e ∈ fourTimers.timerEntries ↔
      e ∈ [timerEntry 4 4, timerEntry 5 2, timerEntry 5 3, timerEntry 6 1] := fun e => by
    rw [← hentries]
    rfl
  have hids : ∀ e ∈ fourTimers.timerEntries, e.second < INT64_MAX := by
    intro e he
    have hall : ∀ e ∈ [timerEntry 4 4, timerEntry 5 2, timerEntry 5 3, timerEntry 6 1],
        e.second < INT64_MAX := by decide
    exact hall e ((hmem e).mp he)
  obtain ⟨expired, rest, hcall, hexpired, -, -, hrest, hall⟩ :=
    getExpired_splits fourTimers hids 5
  refine ⟨expired, rest, hcall, hall.trans hentries, ?_, ?_⟩
  · exact (hexpired _).mpr ⟨(hmem _).mpr (by simp), by decide⟩
  · exact (hrest _).mpr ⟨(hmem _).mpr (by simp), by decide⟩

/-! ## The representation -/

/-- How the containers are related, wherever `handleRead` is. `known` : the timers of the batch
were added, and may be cancelled. -/
structure EntriesInv (s : TimerQueue) : Prop where
  stored : ∀ id v, s.timers.lookup id = some v → ∃ timer, v = some timer ∧ timer.sequence = id ∧
    id < INT64_MAX ∧ ∃ a ∈ s.added, a.sequence = id ∧ a.repeats = timer.repeats
  entries : ∀ e id, timerEntry e id ∈ s.timerEntries ↔
    id ∉ s.pc.pending ∧ ∃ timer, s.timers.lookup id = some (some timer) ∧ timer.expiration = e
  known : ∀ id ∈ s.pc.pending, ∃ a ∈ s.added, a.sequence = id
  nodup : s.pc.pending.Nodup

namespace EntriesInv

variable {s : TimerQueue}

theorem new (clock : Timestamp) : EntriesInv (.new clock) where
  stored id v h := by simp [TimerQueue.new] at h
  entries e id := by simp [TimerQueue.new]
  known id h := by simp [TimerQueue.new, TimerPc.pending, TimerPc.current, TimerPc.rest] at h
  nodup := List.nodup_nil

theorem lt_max (h : EntriesInv s) {id : TimerId} {v : Option Timer}
    (hv : s.timers.lookup id = some v) : id < INT64_MAX := by
  obtain ⟨-, -, -, hlt, -⟩ := h.stored id v hv
  exact hlt

theorem added_of_lookup (h : EntriesInv s) {id : TimerId} {v : Option Timer}
    (hv : s.timers.lookup id = some v) : ∃ a ∈ s.added, a.sequence = id := by
  obtain ⟨-, -, -, -, a, ha, hseq, -⟩ := h.stored id v hv
  exact ⟨a, ha, hseq⟩

/-- A new id is in neither container. -/
theorem lookup_fresh (h : EntriesInv s) {id : TimerId} (hid : ∀ a ∈ s.added, a.sequence ≠ id) :
    s.timers.lookup id = none := by
  cases hv : s.timers.lookup id with
  | none => rfl
  | some v =>
    obtain ⟨a, ha, hseq⟩ := h.added_of_lookup hv
    exact absurd hseq (hid a ha)

theorem addTimer (h : EntriesInv s) {timer : Timer} (garbage : Bool)
    (hmax : timer.sequence < INT64_MAX) (hnew : ∀ a ∈ s.added, a.sequence ≠ timer.sequence) :
    EntriesInv (s.addTimerInLoop timer garbage) := by
  have hnone := h.lookup_fresh hnew
  have hpending : timer.sequence ∉ s.pc.pending := fun hid => by
    obtain ⟨a, ha, hseq⟩ := h.known _ hid
    exact hnew a ha hseq
  refine ⟨fun id v hv => ?_, fun e id => ?_, fun id hid => ?_, h.nodup⟩
  · simp only [TimerQueue.addTimerInLoop, lookup_insert_eq] at hv ⊢
    split_ifs at hv with hid
    · subst hid
      obtain rfl := Option.some.inj hv
      exact ⟨timer, rfl, rfl, hmax, timer, by simp, rfl, rfl⟩
    · obtain ⟨t, ht, hseq, hlt, a, ha, has⟩ := h.stored id v hv
      exact ⟨t, ht, hseq, hlt, a, by simp [ha], has⟩
  · simp only [TimerQueue.addTimerInLoop, lookup_insert_eq, OrderedSet.mem_insert, timerEntry_inj,
      h.entries]
    split_ifs with hid
    · subst hid
      simp [hpending, hnone, eq_comm]
    · simp [hid]
  · obtain ⟨a, ha, hseq⟩ := h.known id hid
    exact ⟨a, List.mem_append_left _ ha, hseq⟩

/-- What `cancelInLoop` does for a timer that is there. -/
theorem cancelInLoop_eq (h : EntriesInv s) {id : TimerId} (hid : id ∈ s.timers) :
    ∃ timer, s.timers.lookup id = some (some timer) ∧ s.cancelInLoop id = .ok
      { s with
        timerEntries := s.timerEntries.erase (timerEntry timer.expiration id)
        timers := s.timers.erase id
        cancelled := s.cancelled ++ [id] } := by
  obtain ⟨v, hv⟩ := Finmap.mem_iff.mp hid
  obtain ⟨timer, rfl, -⟩ := h.stored id v hv
  refine ⟨timer, hv, ?_⟩
  simp only [TimerQueue.cancelInLoop, if_pos hid, hv]

/-- A timer of the batch has no entry to erase. -/
theorem cancel (h : EntriesInv s) {u : TimerQueue} {id : TimerId} (hid : id ∈ s.timers)
    (hu : s.cancelInLoop id = .ok u) : EntriesInv u := by
  obtain ⟨timer, htimer, heq⟩ := h.cancelInLoop_eq hid
  obtain rfl := Except.ok.inj (heq.symm.trans hu)
  refine ⟨fun id' v hv => ?_, fun e id' => ?_, h.known, h.nodup⟩
  · simp only [lookup_erase_eq] at hv
    split_ifs at hv
    exact h.stored id' v hv
  · simp only [lookup_erase_eq, OrderedSet.mem_erase, ne_eq, timerEntry_inj, h.entries]
    split_ifs with heq
    · subst heq
      simp [htimer, eq_comm]
    · simp [heq]

/-- Outside `handleRead` the entries are those of the timers. -/
theorem mem_entries_outside (h : EntriesInv s) (hpc : s.pc = .outside) {x : TimerEntry} :
    x ∈ s.timerEntries ↔
      ∃ timer, s.timers.lookup x.second = some (some timer) ∧ timer.expiration = x.first := by
  rw [← timerEntry_eta x, h.entries, hpc]
  simp [TimerPc.pending, TimerPc.current, TimerPc.rest]

theorem entries_lt_max (h : EntriesInv s) (hpc : s.pc = .outside) :
    ∀ e ∈ s.timerEntries, e.second < INT64_MAX := by
  intro e he
  obtain ⟨timer, htimer, -⟩ := (h.mem_entries_outside hpc).mp he
  exact h.lt_max htimer

section Expired

variable (h : EntriesInv s) (hpc : s.pc = .outside) {now : Timestamp}

include h hpc

theorem mem_expired {x : TimerEntry} :
    x ∈ s.timerEntries.below (timerEntry now INT64_MAX) ↔ x.first ≤ now ∧
      ∃ timer, s.timers.lookup x.second = some (some timer) ∧ timer.expiration = x.first := by
  rw [mem_below_sentry (h.entries_lt_max hpc), h.mem_entries_outside hpc, and_comm]

theorem mem_expired_ids {id : TimerId} {timer : Timer}
    (htimer : s.timers.lookup id = some (some timer)) :
    id ∈ (s.timerEntries.below (timerEntry now INT64_MAX)).map TimerEntry.second ↔
      timer.expiration ≤ now := by
  rw [List.mem_map]
  constructor
  · rintro ⟨x, hx, rfl⟩
    obtain ⟨hdue, timer', htimer', hexp⟩ := (h.mem_expired hpc).mp hx
    obtain rfl := Option.some.inj (Option.some.inj (htimer.symm.trans htimer'))
    rwa [hexp]
  · intro hdue
    exact ⟨timerEntry timer.expiration id,
      (h.mem_expired hpc).mpr ⟨hdue, timer, htimer, rfl⟩, rfl⟩

theorem expired_ids_nodup :
    ((s.timerEntries.below (timerEntry now INT64_MAX)).map TimerEntry.second).Nodup := by
  refine List.Nodup.map_on (fun x hx y hy heq => ?_) OrderedSet.below_nodup
  obtain ⟨-, timer, htimer, hexp⟩ := (h.mem_expired hpc).mp hx
  obtain ⟨-, timer', htimer', hexp'⟩ := (h.mem_expired hpc).mp hy
  rw [heq, htimer'] at htimer
  obtain rfl := Option.some.inj (Option.some.inj htimer)
  rw [← timerEntry_eta x, ← timerEntry_eta y, heq, ← hexp, ← hexp']

end Expired

theorem handleRead_eq (h : EntriesInv s) (hpc : s.pc = .outside) :
    s.handleRead = .ok { s with
      timerfd := s.timerfd.read
      timerEntries := s.timerEntries.dropBelow (timerEntry s.clock INT64_MAX)
      pc := .batch s.clock (s.timerEntries.below (timerEntry s.clock INT64_MAX)) } := by
  simp [TimerQueue.handleRead, getExpired_ok (h.entries_lt_max hpc)]

theorem handleRead (h : EntriesInv s) (hpc : s.pc = .outside) {u : TimerQueue}
    (hu : s.handleRead = .ok u) : EntriesInv u := by
  obtain rfl := Except.ok.inj ((h.handleRead_eq hpc).symm.trans hu)
  refine ⟨h.stored, fun e id => ?_, fun id hid => ?_, h.expired_ids_nodup hpc⟩
  · simp only [OrderedSet.mem_dropBelow, h.mem_entries_outside hpc, TimerPc.pending,
      TimerPc.current, TimerPc.rest, Option.toList_none, List.nil_append, first_timerEntry,
      second_timerEntry]
    constructor
    · rintro ⟨⟨timer, htimer, rfl⟩, hle⟩
      refine ⟨?_, timer, htimer, rfl⟩
      rw [h.mem_expired_ids hpc htimer]
      exact fun hdue => absurd ((lt_sentry_iff (h.lt_max htimer)).mpr hdue) (not_lt.mpr hle)
    · rintro ⟨hid, timer, htimer, rfl⟩
      refine ⟨⟨timer, htimer, rfl⟩, ?_⟩
      rw [h.mem_expired_ids hpc htimer] at hid
      exact not_lt.mp fun hlt => hid ((lt_sentry_iff (h.lt_max htimer)).mp hlt)
  · obtain ⟨x, hx, rfl⟩ := List.mem_map.mp hid
    obtain ⟨-, timer, htimer, -⟩ := (h.mem_expired hpc).mp hx
    exact h.added_of_lookup htimer

/-- The callback that starts is still of the batch. -/
theorem startCallback (h : EntriesInv s) {now : Timestamp} {e : TimerEntry}
    {rest : List TimerEntry} (hpc : s.pc = .batch now (e :: rest)) {u : TimerQueue}
    (hu : s.startCallback = .ok u) : EntriesInv u := by
  obtain ⟨hstored, hentries, hknown, hnodup⟩ := h
  rw [hpc] at hentries hknown hnodup
  simp only [TimerQueue.startCallback, hpc] at hu
  split at hu
  · cases hu
  · cases hu
  · obtain rfl := Except.ok.inj hu
    exact ⟨hstored, hentries, hknown, hnodup⟩

section EndCallback

variable (h : EntriesInv s) {now : Timestamp} {id : TimerId} {rest : List TimerEntry}
  (hpc : s.pc = .calling now id rest)

include h hpc

theorem calling_entries (e : Timestamp) (id' : TimerId) : timerEntry e id' ∈ s.timerEntries ↔
    id' ≠ id ∧ id' ∉ rest.map TimerEntry.second ∧
      ∃ timer, s.timers.lookup id' = some (some timer) ∧ timer.expiration = e := by
  rw [h.entries, hpc]
  simp [TimerPc.pending, TimerPc.current, TimerPc.rest, and_assoc]

theorem calling_nodup : id ∉ rest.map TimerEntry.second ∧ (rest.map TimerEntry.second).Nodup := by
  have hnodup := h.nodup
  rw [hpc] at hnodup
  exact List.nodup_cons.mp hnodup

theorem calling_known : ∀ id' ∈ rest.map TimerEntry.second, ∃ a ∈ s.added, a.sequence = id' := by
  have hknown := h.known
  rw [hpc] at hknown
  exact fun id' hid' => hknown id' (List.mem_cons_of_mem id hid')

/-- A repeating timer goes back into the entries. -/
theorem restart {timer timer' : Timer} (htimer : s.timers.lookup id = some (some timer))
    (hseq : timer'.sequence = timer.sequence) (hrepeats : timer'.repeats = timer.repeats) :
    EntriesInv { s with
      timers := s.timers.insert id (some timer')
      timerEntries := s.timerEntries.insert (timerEntry timer'.expiration timer'.sequence)
      pc := .batch now rest } := by
  obtain ⟨hid, hrest⟩ := h.calling_nodup hpc
  obtain ⟨t, ht, htseq, hlt, a, ha, haseq, harep⟩ := h.stored id _ htimer
  obtain rfl := Option.some.inj ht
  refine ⟨fun id' v hv => ?_, fun e id' => ?_, h.calling_known hpc, hrest⟩
  · simp only [lookup_insert_eq] at hv
    split_ifs at hv with heq
    · subst heq
      obtain rfl := Option.some.inj hv
      exact ⟨timer', rfl, hseq.trans htseq, hlt, a, ha, haseq, harep.trans hrepeats.symm⟩
    · exact h.stored id' v hv
  · simp only [OrderedSet.mem_insert, timerEntry_inj, h.calling_entries hpc, lookup_insert_eq,
      hseq, htseq, TimerPc.pending, TimerPc.current, TimerPc.rest, Option.toList_none,
      List.nil_append]
    split_ifs with heq
    · subst heq
      simp [hid, eq_comm]
    · simp [heq]

/-- A one-shot timer is erased. -/
theorem retire : EntriesInv { s with timers := s.timers.erase id, pc := .batch now rest } := by
  obtain ⟨-, hrest⟩ := h.calling_nodup hpc
  refine ⟨fun id' v hv => ?_, fun e id' => ?_, h.calling_known hpc, hrest⟩
  · simp only [lookup_erase_eq] at hv
    split_ifs at hv
    exact h.stored id' v hv
  · simp only [h.calling_entries hpc, lookup_erase_eq, TimerPc.pending, TimerPc.current,
      TimerPc.rest, Option.toList_none, List.nil_append]
    split_ifs with heq
    · simp [heq]
    · simp [heq]

theorem endCallback {u : TimerQueue} (hu : s.endCallback = .ok u) : EntriesInv u := by
  simp only [TimerQueue.endCallback, hpc] at hu
  split at hu
  · next timer htimer =>
    split_ifs at hu
    · obtain rfl := Except.ok.inj hu
      exact h.restart hpc htimer rfl rfl
    · obtain rfl := Except.ok.inj hu
      exact h.retire hpc
  · cases hu

end EndCallback

theorem finish (h : EntriesInv s) {now : Timestamp} (hpc : s.pc = .batch now []) :
    EntriesInv s.finish := by
  obtain ⟨hstored, hentries, hknown, hnodup⟩ := h
  rw [hpc] at hentries hknown hnodup
  exact ⟨hstored, hentries, hknown, hnodup⟩

theorem tick (h : EntriesInv s) (fd : Timerfd) (now : Timestamp) :
    EntriesInv { s with clock := now, timerfd := fd } :=
  ⟨h.stored, h.entries, h.known, h.nodup⟩

/-- Every step that does not fail keeps the relation, also one that cancels a timer of the running
batch. -/
theorem step {u : TimerQueue} {l : TimerStep} (h : EntriesInv s) (he : timerMachine.enabled s l)
    (hx : timerMachine.exec s l = .ok u) : EntriesInv u := by
  cases l with
  | addTimer timer garbage =>
    obtain rfl := Except.ok.inj hx
    exact h.addTimer garbage he.2.1 he.2.2
  | cancel id => exact h.cancel he.2 hx
  | handleRead => exact h.handleRead he hx
  | startCallback =>
    obtain ⟨now, e, rest, hpc⟩ := he
    exact h.startCallback hpc hx
  | endCallback =>
    obtain ⟨now, id, rest, hpc⟩ := he
    exact h.endCallback hpc hx
  | finish =>
    obtain ⟨now, hpc⟩ := he
    obtain rfl := Except.ok.inj hx
    exact h.finish hpc
  | tick now =>
    obtain rfl := Except.ok.inj hx
    exact h.tick (s.timerfd.elapse now) now

end EntriesInv

/-! ## The first entry -/

namespace TimerQueue

variable {s : TimerQueue}

/-- The test `timers_.empty()` of `addTimerInLoop` keeps it from reading the first of no
entries. -/
def Guarded (s : TimerQueue) : Prop := s.timerEntries.min? = none → s.timers = ∅

/-- There are no timers, or the running batch does not have all of them. -/
def SomeOutsideBatch (s : TimerQueue) : Prop :=
  s.timers = ∅ ∨ ∃ id ∈ s.timers, id ∉ s.pc.pending

instance (s : TimerQueue) : Decidable s.Guarded :=
  inferInstanceAs (Decidable (_ → _))

instance (s : TimerQueue) : Decidable s.SomeOutsideBatch :=
  decidable_of_iff (s.timers = ∅ ∨ ∃ id ∈ s.timers.keys, id ∉ s.pc.pending)
    (by simp only [Finmap.mem_keys, SomeOutsideBatch])

/-- The test has the same result whatever is read at the end of the set. -/
theorem guarded_iff_earliestChanged : s.Guarded ↔
    ∀ expiration, s.earliestChanged expiration true = s.earliestChanged expiration false := by
  unfold Guarded earliestChanged
  cases s.timerEntries.min? with
  | none => simp
  | some e => simp

end TimerQueue

theorem EntriesInv.guarded_iff {s : TimerQueue} (h : EntriesInv s) :
    s.Guarded ↔ s.SomeOutsideBatch := by
  unfold TimerQueue.Guarded TimerQueue.SomeOutsideBatch
  rw [OrderedSet.min?_eq_none_iff]
  constructor
  · intro hguard
    by_contra hall
    obtain ⟨hne, hbatch⟩ := not_or.mp hall
    refine hne (hguard fun x hx => hbatch ?_)
    obtain ⟨hout, timer, htimer, -⟩ := (h.entries x.first x.second).mp hx
    exact ⟨x.second, mem_of_lookup htimer, hout⟩
  · rintro (hempty | ⟨id, hid, hout⟩) hnone
    · exact hempty
    · obtain ⟨v, hv⟩ := Finmap.mem_iff.mp hid
      obtain ⟨timer, rfl, -⟩ := h.stored id v hv
      exact absurd ((h.entries _ id).mpr ⟨hout, timer, hv, rfl⟩) (hnone _)

/-- Outside `handleRead` there is no running batch. -/
theorem EntriesInv.guarded_outside {s : TimerQueue} (h : EntriesInv s) (hpc : s.pc = .outside) :
    s.Guarded := by
  refine h.guarded_iff.mpr ?_
  rcases eq_or_ne s.timers ∅ with hempty | hne
  · exact .inl hempty
  · obtain ⟨id, hid⟩ : ∃ id, id ∈ s.timers := by
      by_contra hnone
      refine hne (Finmap.ext_lookup fun id => ?_)
      rw [Finmap.lookup_empty, Finmap.lookup_eq_none]
      exact fun hid => hnone ⟨id, hid⟩
    exact .inr ⟨id, hid, by rw [hpc]; exact List.not_mem_nil⟩

/-- In every state that a run leads to, inside a callback and outside, `addTimerInLoop` reads the
first entry only when there is one if and only if there are no timers or one that the running batch
does not have. Outside `handleRead` that is so. -/
theorem addTimer_guard_iff {clock : Timestamp} {ls : List TimerStep} {t : TimerQueue}
    (hrun : timerMachine.Run (.new clock) ls t) :
    (t.Guarded ↔ t.SomeOutsideBatch) ∧ (t.pc = .outside → t.Guarded) := by
  have h : EntriesInv t := hrun.invariant (.new clock) fun _ _ _ h he hx => h.step he hx
  exact ⟨h.guarded_iff, h.guarded_outside⟩

/-- The callback of timer 1 runs while timer 2 waits. -/
theorem addTimer_guard_waiting : ∃ t,
    timerMachine.Run (.new 0) [.addTimer ⟨10, 0, false, 1⟩ false,
      .addTimer ⟨20, 0, false, 2⟩ false, .tick 10, .handleRead, .startCallback] t ∧
    t.pc.current = some 1 ∧ t.Guarded := by
  have hrun : timerMachine.Run (.new 0) [.addTimer ⟨10, 0, false, 1⟩ false,
      .addTimer ⟨20, 0, false, 2⟩ false, .tick 10, .handleRead, .startCallback] _ := .of_play rfl
  exact ⟨_, hrun, rfl, (addTimer_guard_iff hrun).1.mpr (.inr ⟨2, by decide, by decide⟩)⟩

/-- The callback of the only timer adds another one. There is a timer and no entry, and whether
the timerfd is armed depends on what is read at the end of the set. -/
theorem addTimer_guard_fails : ∃ t,
    timerMachine.Run (.new 0) [.addTimer ⟨10, 0, false, 1⟩ false, .tick 10, .handleRead,
      .startCallback] t ∧
    (∀ garbage, timerMachine.enabled t (.addTimer ⟨30, 0, false, 2⟩ garbage)) ∧
    t.timerEntries.min? = none ∧ t.timers ≠ ∅ ∧ ¬t.Guarded ∧
    (t.addTimerInLoop ⟨30, 0, false, 2⟩ true).timerfd ≠
      (t.addTimerInLoop ⟨30, 0, false, 2⟩ false).timerfd := by
  have hrun : timerMachine.Run (.new 0) [.addTimer ⟨10, 0, false, 1⟩ false, .tick 10, .handleRead,
      .startCallback] _ := .of_play rfl
  exact ⟨_, hrun, by decide, rfl, by decide, fun h => absurd (h rfl) (by decide), by decide⟩

end Tmuduo
