import Tmuduo.PollIndex

/-!
# The channels that the poll poller reports

`PollPoller::fillActiveChannels` takes the first `numEvents` entries of `pollfds_`, whether they
have events or not. It reports the ready channels if and only if their entries come first
(`poll_reports_iff`). `poll_reports_idle` is a channel that is reported without events in place of
the one that has them, and a disabled entry that ends in a failing assertion.
-/

set_option autoImplicit false

namespace Tmuduo

variable {ι : Type}

namespace PollPoller

variable {p p' : PollPoller ι} {channel : ι → Channel} {revents : ℕ → BitVec 16}

/-- What is pushed for an entry : the channel that the map has for it, with its events. -/
structure Pushes (channels : Finmap fun _ : ℤ => ι) (channel : ι → Channel) (pfd : Pollfd)
    (active : ι × BitVec 32) : Prop where
  found : channels.lookup pfd.fd = some active.1
  same : (channel active.1).fd = pfd.fd
  revents : active.2 = pfd.revents.signExtend 32

/-- `fillActiveChannels` pushes a channel for each of the first `numEvents` entries. -/
theorem fillActiveChannels_eq_ok_iff : ∀ {numEvents : ℕ} {pollfds : List Pollfd}
    {activeChannels : List (ι × BitVec 32)},
    p.fillActiveChannels channel numEvents pollfds = .ok activeChannels ↔
      List.Forall₂ (Pushes p.channels channel) (pollfds.take numEvents) activeChannels
  | _, [], activeChannels => by
    rw [fillActiveChannels, List.take_nil, List.forall₂_nil_left_iff]
    exact ⟨fun h => (Except.ok.inj h).symm, fun h => congrArg Except.ok h.symm⟩
  | 0, pfd :: pollfds, activeChannels => by
    rw [fillActiveChannels, fillActiveChannels_eq_ok_iff, List.take_zero, List.take_zero]
  | numEvents + 1, pfd :: pollfds, activeChannels => by
    rw [fillActiveChannels, List.take_succ_cons, List.forall₂_cons_left_iff]
    constructor
    · intro h
      split at h
      · cases h
      next i hi =>
      obtain ⟨hfd, h⟩ := check_bind_eq_ok_iff.mp h
      obtain ⟨rest, hrest, rfl⟩ := bind_pure_eq_ok_iff.mp h
      exact ⟨_, rest, ⟨hi, hfd, rfl⟩, fillActiveChannels_eq_ok_iff.mp hrest, rfl⟩
    · rintro ⟨⟨i, r⟩, rest, ⟨hi, hfd, hr⟩, hrest, rfl⟩
      simp only at hi hfd hr
      rw [hi, hr]
      simp only [check_of _ hfd, ok_bind, fillActiveChannels_eq_ok_iff.mpr hrest]
      rfl

theorem poll_eq_ok_iff {activeChannels : List (ι × BitVec 32)} :
    p.poll channel revents = .ok (p', activeChannels) ↔
      p' = { p with pollfds := p.polled revents } ∧
      List.Forall₂ (Pushes p.channels channel) ((p.polled revents).take (p.numEvents revents))
        activeChannels := by
  unfold poll
  split_ifs with hpos
  · simp only [bind_pure_eq_ok_iff, Prod.mk.injEq]
    constructor
    · rintro ⟨active, hactive, rfl, rfl⟩
      have hpushes := fillActiveChannels_eq_ok_iff.mp hactive
      exact ⟨rfl, hpushes⟩
    · rintro ⟨rfl, hactive⟩
      refine ⟨activeChannels, ?_, rfl, rfl⟩
      exact fillActiveChannels_eq_ok_iff.mpr hactive
  · have hzero : p.numEvents revents = 0 := by omega
    rw [hzero, List.take_zero, List.forall₂_nil_left_iff]
    simp [eq_comm]

theorem getElem?_polled (k : ℕ) :
    (p.polled revents)[k]? = p.pollfds[k]?.map fun pfd => { pfd with revents := revents k } := by
  rw [polled, List.getElem?_mapIdx]

theorem map_fd_polled : (p.polled revents).map Pollfd.fd = p.pollfds.map Pollfd.fd := by
  refine List.ext_getElem? fun k => ?_
  rw [List.getElem?_map, List.getElem?_map, getElem?_polled, Option.map_map]
  rfl

end PollPoller

theorem signExtend_ne_zero {r : BitVec 16} (h : r ≠ 0) : r.signExtend 32 ≠ 0 := by
  intro hzero
  refine h (BitVec.eq_of_toInt_eq ?_)
  rw [← BitVec.toInt_signExtend_of_le (by decide : 16 ≤ 32), hzero]
  decide

/-! ## The channels that are ready -/

namespace PollSystem

variable {s : PollSystem ι} {revents : ℕ → BitVec 16}

/-- The events that `::poll` wrote to the entry of a registered channel. -/
def reventsOf (s : PollSystem ι) (revents : ℕ → BitVec 16) (i : ι) : BitVec 16 :=
  revents (s.poller.index i).toNat

/-- `poll` completes. It reports the registered channels whose entry has events, with these
events, and each once. -/
def ReportsReady (s : PollSystem ι) (revents : ℕ → BitVec 16) : Prop :=
  ∃ poller activeChannels, s.poller.poll s.channel revents = .ok (poller, activeChannels) ∧
    (activeChannels.map Prod.fst).Nodup ∧
    ∀ i r, (i, r) ∈ activeChannels ↔ (s.channel i).addedToLoop = true ∧
      s.reventsOf revents i ≠ 0 ∧ r = (s.reventsOf revents i).signExtend 32

/-- No entry without events stands before one with events. -/
def ReadyFirst (s : PollSystem ι) (revents : ℕ → BitVec 16) : Prop :=
  ∀ j k, j < k → k < s.poller.pollfds.length → revents k ≠ 0 → revents j ≠ 0

theorem readyFirst_iff_pairwise : s.ReadyFirst revents ↔
    (s.poller.polled revents).Pairwise fun pfd pfd' =>
      (pfd'.revents != 0) = true → (pfd.revents != 0) = true := by
  rw [List.pairwise_iff_getElem]
  simp only [PollPoller.polled, List.length_mapIdx, List.getElem_mapIdx, bne_iff_ne]
  exact ⟨fun h j k _ hk hjk => h j k hjk hk, fun h j k hjk hk => h j k (by omega) hk hjk⟩

/-- The entries have distinct descriptors. -/
theorem Inv.nodup_fds (h : s.Inv) : (s.poller.pollfds.map Pollfd.fd).Nodup := by
  rw [List.Nodup, List.pairwise_map, List.pairwise_iff_getElem]
  intro j k hj hk hjk heq
  obtain ⟨i, -, hi, hfd⟩ := h.owner (List.getElem?_eq_getElem hj)
  obtain ⟨i', -, hi', hfd'⟩ := h.owner (List.getElem?_eq_getElem hk)
  have hnonneg := h.tracked.nonneg i
  have hnonneg' := h.tracked.nonneg i'
  have hsame : (s.channel i).fd = (s.channel i').fd := by omega
  rw [h.tracked.distinct hsame] at hi
  omega

/-- What the entry of a registered channel is after `::poll`. -/
theorem Inv.polled_entry (h : s.Inv) (hvalid : s.poller.ValidRevents revents) {i : ι}
    (hadded : (s.channel i).addedToLoop = true) (hready : s.reventsOf revents i ≠ 0) :
    ∃ pfd, (s.poller.polled revents)[(s.poller.index i).toNat]? = some pfd ∧
      pfd.fd = (s.channel i).fd ∧ pfd.revents = s.reventsOf revents i := by
  obtain ⟨-, -, pfd, hpfd, hfd⟩ := h.entry hadded
  refine ⟨{ pfd with revents := s.reventsOf revents i }, ?_, ?_, rfl⟩
  · rw [PollPoller.getElem?_polled, hpfd]
    rfl
  · obtain ⟨hlt, hget⟩ := List.getElem?_eq_some_iff.mp hpfd
    have hpositive : ¬pfd.fd < 0 := fun hneg => hready (hvalid _ hlt (by rwa [← hget] at hneg))
    have hnonneg := h.tracked.nonneg i
    simp only
    omega

/-- An entry with events is that of a channel that the map has for its descriptor. -/
theorem Inv.pushes_of_ready (h : s.Inv) (hvalid : s.poller.ValidRevents revents) {k : ℕ}
    {pfd : Pollfd} (hpfd : (s.poller.polled revents)[k]? = some pfd) (hready : pfd.revents ≠ 0) :
    ∃ i, s.poller.index i = k ∧ (s.channel i).addedToLoop = true ∧
      pfd.revents = s.reventsOf revents i ∧
      PollPoller.Pushes s.poller.channels s.channel pfd (i, pfd.revents.signExtend 32) := by
  rw [PollPoller.getElem?_polled] at hpfd
  obtain ⟨pfd', hpfd', rfl⟩ := Option.map_eq_some_iff.mp hpfd
  obtain ⟨i, hadded, hi, -⟩ := h.owner hpfd'
  have hof : s.reventsOf revents i = revents k := by
    rw [reventsOf, hi, Int.toNat_natCast]
  obtain ⟨pfd'', hpfd'', hfd, -⟩ := h.polled_entry hvalid hadded (by rwa [hof])
  rw [hi, Int.toNat_natCast, PollPoller.getElem?_polled, hpfd'] at hpfd''
  obtain rfl := Option.some.inj hpfd''
  refine ⟨i, hi, hadded, hof.symm, ?_, hfd.symm, rfl⟩
  rw [hfd]
  exact (h.entry hadded).1

/-- No channel is pushed twice. -/
theorem Inv.nodup_active (h : s.Inv) {n : ℕ} {activeChannels : List (ι × BitVec 32)}
    (hactive : List.Forall₂ (PollPoller.Pushes s.poller.channels s.channel)
      ((s.poller.polled revents).take n) activeChannels) : (activeChannels.map Prod.fst).Nodup := by
  have hfds : ((s.poller.polled revents).take n).map Pollfd.fd =
      (activeChannels.map Prod.fst).map fun i => (s.channel i).fd := by
    rw [List.map_map, ← List.forall₂_eq_eq_eq, List.forall₂_map_left_iff,
      List.forall₂_map_right_iff]
    exact hactive.imp fun _ _ hpush => hpush.same.symm
  have hnodup : ((activeChannels.map Prod.fst).map fun i => (s.channel i).fd).Nodup := by
    rw [← hfds, List.map_take, PollPoller.map_fd_polled]
    exact h.nodup_fds.sublist (List.take_sublist ..)
  exact hnodup.of_map

/-- Where the first entries are those with events, `fillActiveChannels` reports their channels. -/
theorem Inv.reportsReady (h : s.Inv) (hvalid : s.poller.ValidRevents revents)
    (hfirst : s.ReadyFirst revents) : s.ReportsReady revents := by
  have hpairwise := readyFirst_iff_pairwise.mp hfirst
  have hready := forall_mem_take_countP_iff.mpr hpairwise
  have hpushes : ∀ pfd ∈ (s.poller.polled revents).take (s.poller.numEvents revents),
      ∃ active, PollPoller.Pushes s.poller.channels s.channel pfd active := by
    intro pfd hpfd
    obtain ⟨k, hk⟩ := List.mem_iff_getElem?.mp (List.mem_of_mem_take hpfd)
    obtain ⟨i, -, -, -, hi⟩ := h.pushes_of_ready hvalid hk (bne_iff_ne.mp (hready pfd hpfd))
    exact ⟨_, hi⟩
  obtain ⟨activeChannels, hactive⟩ := exists_forall₂ hpushes
  refine ⟨_, activeChannels, PollPoller.poll_eq_ok_iff.mpr ⟨rfl, hactive⟩, ?_, fun i r => ?_⟩
  · exact h.nodup_active hactive
  · constructor
    · intro hmem
      obtain ⟨pfd, hpfd, hpush⟩ := exists_mem_left hactive hmem
      obtain ⟨k, hk⟩ := List.mem_iff_getElem?.mp (List.mem_of_mem_take hpfd)
      have hne := bne_iff_ne.mp (hready pfd hpfd)
      obtain ⟨j, -, hadded, hrevents, hj⟩ := h.pushes_of_ready hvalid hk hne
      obtain rfl : i = j := Option.some.inj (hpush.found.symm.trans hj.found)
      rw [← hrevents]
      exact ⟨hadded, hne, hpush.revents⟩
    · rintro ⟨hadded, hne, rfl⟩
      obtain ⟨pfd, hpfd, hfd, hrevents⟩ := h.polled_entry hvalid hadded hne
      have hlt : (s.poller.index i).toNat < s.poller.numEvents revents :=
        lt_countP_of_pairwise hpairwise hpfd (by rwa [hrevents, bne_iff_ne])
      have hmem : pfd ∈ (s.poller.polled revents).take (s.poller.numEvents revents) :=
        List.mem_iff_getElem?.mpr ⟨_, by rw [List.getElem?_take_of_lt hlt, hpfd]⟩
      obtain ⟨⟨j, r⟩, hj, hpush⟩ := exists_mem_right hactive hmem
      have hlookup := (h.entry hadded).1
      rw [← hfd] at hlookup
      obtain rfl : i = j := Option.some.inj (hlookup.symm.trans hpush.found)
      rwa [← hrevents, ← hpush.revents]

/-- An entry without events that is among the first ones is reported, or its assertion fails. -/
theorem readyFirst_of_reportsReady (h : s.ReportsReady revents) : s.ReadyFirst revents := by
  obtain ⟨poller, activeChannels, hpoll, -, hexact⟩ := h
  obtain ⟨-, hactive⟩ := PollPoller.poll_eq_ok_iff.mp hpoll
  rw [readyFirst_iff_pairwise, ← forall_mem_take_countP_iff]
  intro pfd hpfd
  obtain ⟨⟨i, r⟩, hmem, hpush⟩ := exists_mem_right hactive hpfd
  obtain ⟨-, hne, hr⟩ := (hexact i r).mp hmem
  rw [bne_iff_ne]
  intro hzero
  have hpushed : r = pfd.revents.signExtend 32 := hpush.revents
  rw [hzero] at hpushed
  exact signExtend_ne_zero hne (hr.symm.trans hpushed)

end PollSystem

/-- In every state that updates, removals and polls lead to, and whatever events `::poll` writes,
`poll` reports exactly the ready channels if and only if no entry without events stands before
one with events. -/
theorem poll_reports_iff [DecidableEq ι] {fd : ι → ℤ} (hfd : Function.Injective fd)
    (hnonneg : ∀ i, 0 ≤ fd i) {ls : List (PollCall ι)} {t : PollSystem ι}
    (hrun : (pollMachine ι).Run (.new fd) ls t) {revents : ℕ → BitVec 16}
    (hvalid : t.poller.ValidRevents revents) :
    t.ReportsReady revents ↔ t.ReadyFirst revents := by
  have hinv : t.Inv := hrun.invariant (.new hfd hnonneg) fun _ _ _ h he hx => h.step he hx
  exact ⟨PollSystem.readyFirst_of_reportsReady, hinv.reportsReady hvalid⟩

/-- Of two channels, the one with the first entry is ready. -/
theorem poll_reports_first : ∃ t,
    (pollMachine Bool).Run (.new fun i => if i then 5 else 7)
      [.interest true .enableReading, .interest false .enableReading] t ∧
    t.ReportsReady fun k => if k = 0 then 1 else 0 := by
  have hrun : (pollMachine Bool).Run (.new fun i => if i then 5 else 7)
      [.interest true .enableReading, .interest false .enableReading] _ := .of_play rfl
  refine ⟨_, hrun, (poll_reports_iff (by decide) (by decide) hrun (by decide)).mpr ?_⟩
  intro j k hjk _ hk
  have hk0 : k ≠ 0 := by omega
  exact absurd (if_neg hk0) hk

/-- Of two channels with descriptors 5 and 7, the second is ready. The first is reported, with no
events. If the first is switched off, the assertion of `fillActiveChannels` fails. -/
theorem poll_reports_idle :
    (∃ t, (pollMachine Bool).Run (.new fun i => if i then 5 else 7)
      [.interest true .enableReading, .interest false .enableReading] t ∧
      t.poller.ValidRevents (fun k => if k = 1 then 1 else 0) ∧
      (t.poller.poll t.channel fun k => if k = 1 then 1 else 0).map Prod.snd = .ok [(true, 0)] ∧
      ¬t.ReportsReady fun k => if k = 1 then 1 else 0) ∧
    ∃ t, (pollMachine Bool).Run (.new fun i => if i then 5 else 7)
      [.interest true .enableReading, .interest false .enableReading,
        .interest true .disableAll] t ∧
      t.poller.ValidRevents (fun k => if k = 1 then 1 else 0) ∧
      (t.poller.poll t.channel fun k => if k = 1 then 1 else 0).map Prod.snd =
        .error .fillFound := by
  refine ⟨⟨_, .of_play rfl, by decide, rfl, fun h => ?_⟩, _, .of_play rfl, by decide, rfl⟩
  have hfirst := PollSystem.readyFirst_of_reportsReady h 0 1 (by decide) (by decide) (by decide)
  exact absurd rfl hfirst

end Tmuduo
