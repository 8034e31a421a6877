import Tmuduo.PollPoller
import Tmuduo.Segment

/-!
# The indices of the poll poller

`PollPoller::removeChannel` puts the last entry in the place of the one it removes, and finds the
channel of that entry through the map, by the descriptor or its negation. It leaves the index of
the removed channel as it was.

`pollMachine` makes updates, removals and calls of `::poll` in any order, where a channel that was
removed is not updated again. The indices that removed channels still have say nothing, so the
invariant is that of `PollPoller`, `PollInv`, for the poller that has forgotten them
(`PollPoller.forget`). `poll_index_bijection` is the statement for every run.
-/

set_option autoImplicit false

namespace Tmuduo

variable {ι : Type}

/-- The descriptor of an entry, whether it is negated or not. -/
def Pollfd.channelFd (pfd : Pollfd) : ℤ :=
  if pfd.fd < 0 then -pfd.fd - 1 else pfd.fd

theorem Pollfd.channelFd_eq {pfd : Pollfd} {fd : ℤ} (hfd : pfd.fd = fd ∨ pfd.fd = -fd - 1)
    (hnonneg : 0 ≤ fd) : pfd.channelFd = fd := by
  unfold channelFd
  split_ifs <;> omega

namespace PollPoller

variable [DecidableEq ι] (p : PollPoller ι)

/-- The end of `removeChannel` : the entry of `i` is the last one, or the last one takes its
place. -/
def erasePollfd (i : ι) (channels : Finmap fun _ : ℤ => ι) : Except PollerFault (PollPoller ι) :=
  let idx := (p.index i).toNat
  if idx = p.pollfds.length - 1 then
    return { p with pollfds := p.pollfds.dropLast, channels := channels }
  else
    match p.pollfds.getLast?.bind fun pfd => channels.lookup pfd.channelFd with
    | none => .error .removeMoved
    | some j => return ({ p with
        pollfds := swapRemove p.pollfds idx
        channels := channels }).setIndex j idx

def removeChannel (i : ι) (c : Channel) : Except PollerFault (PollPoller ι) := do
  check (c.fd ∈ p.channels) .removeFound
  check (p.channels.lookup c.fd = some i) .removeSame
  check (c.isNoneEvent = true) .removeNoneEvent
  match p.entry i with
  | none => .error .removeIndex
  | some pfd => do
    check (pfd.fd = -c.fd - 1 ∧ c.events = pfd.events.signExtend 32) .removePollfd
    let n := if c.fd ∈ p.channels then 1 else 0
    check (n = 1) .removeErase
    p.erasePollfd i (p.channels.erase c.fd)

omit [DecidableEq ι] in
/-- `pollfds_` after `::poll` has written the events `revents` to it. -/
def polled (revents : ℕ → BitVec 16) : List Pollfd :=
  p.pollfds.mapIdx fun k pfd => { pfd with revents := revents k }

omit [DecidableEq ι] in
/-- `PollPoller::fillActiveChannels`, of the entries that are left. An active channel is given
with what `setRevents` sets. -/
def fillActiveChannels (channel : ι → Channel) :
    ℕ → List Pollfd → Except PollerFault (List (ι × BitVec 32))
  | _, [] => return []
  | 0, _ :: pollfds => fillActiveChannels channel 0 pollfds
  | numEvents + 1, pfd :: pollfds =>
    match p.channels.lookup pfd.fd with
    | none => .error .fillFound
    | some i => do
      check ((channel i).fd = pfd.fd) .fillSame
      let activeChannels ← fillActiveChannels channel numEvents pollfds
      return (i, pfd.revents.signExtend 32) :: activeChannels

omit [DecidableEq ι] in
/-- The number of events that `::poll` returns. -/
def numEvents (revents : ℕ → BitVec 16) : ℕ :=
  (p.polled revents).countP fun pfd => pfd.revents != 0

omit [DecidableEq ι] in
/-- `PollPoller::poll`, when `::poll` writes `revents`. -/
def poll (channel : ι → Channel) (revents : ℕ → BitVec 16) :
    Except PollerFault (PollPoller ι × List (ι × BitVec 32)) := do
  let p' := { p with pollfds := p.polled revents }
  if 0 < p.numEvents revents then
    let activeChannels ← p'.fillActiveChannels channel (p.numEvents revents) p'.pollfds
    return (p', activeChannels)
  else return (p', [])

omit [DecidableEq ι] in
/-- `::poll` writes no events to an entry whose descriptor is negative. -/
def ValidRevents (revents : ℕ → BitVec 16) : Prop :=
  ∀ k (hk : k < p.pollfds.length), (p.pollfds.get ⟨k, hk⟩).fd < 0 → revents k = 0

omit [DecidableEq ι] in
instance (revents : ℕ → BitVec 16) : Decidable (p.ValidRevents revents) :=
  inferInstanceAs (Decidable (∀ k (_ : k < p.pollfds.length), _ → _))

end PollPoller

/-- The channels of a loop, its poller, and the channels that were removed from it. -/
structure PollSystem (ι : Type) where
  channel : ι → Channel
  poller : PollPoller ι
  removed : List ι

/-- Channels that have just been constructed, and a new poller. -/
def PollSystem.new (fd : ι → ℤ) : PollSystem ι :=
  ⟨fun i => .new (fd i), .new, []⟩

/-- What a loop does with its poller. `poll revents` : `::poll` writes these events. -/
inductive PollCall (ι : Type)
  | interest (i : ι) (op : InterestOp)
  | remove (i : ι)
  | poll (revents : ℕ → BitVec 16)

/-- Updates, removals and polls in any order. A channel is removed while it is registered, and is
not updated after that. -/
def pollMachine (ι : Type) [DecidableEq ι] :
    Machine (PollSystem ι) (PollCall ι) PollerFault where
  enabled s
    | .interest i _ => i ∉ s.removed
    | .remove i => (s.channel i).addedToLoop = true
    | .poll revents => s.poller.ValidRevents revents
  exec s
    | .interest i op => do
        let c := (s.channel i).call op
        let poller ← s.poller.updateChannel i c
        return { s with channel := Function.update s.channel i c, poller := poller }
    | .remove i => do
        let c ← (s.channel i).remove.mapError fun _ => .channelRemove
        let poller ← s.poller.removeChannel i c
        return ⟨Function.update s.channel i c, poller, i :: s.removed⟩
    | .poll revents => do
        let (poller, _) ← s.poller.poll s.channel revents
        return { s with poller := poller }

instance [DecidableEq ι] (s : PollSystem ι) : ∀ l, Decidable ((pollMachine ι).enabled s l)
  | .interest i _ => inferInstanceAs (Decidable (i ∉ s.removed))
  | .remove i => inferInstanceAs (Decidable ((s.channel i).addedToLoop = true))
  | .poll revents => inferInstanceAs (Decidable (s.poller.ValidRevents revents))

/-! ## What the calls do -/

namespace PollPoller

variable [DecidableEq ι] {p p' : PollPoller ι} {i : ι} {c : Channel}

/-- An update appends an entry, or changes one in place. -/
theorem updateChannel_cases (h : p.updateChannel i c = .ok p') :
    (p.index i < 0 ∧ c.fd ∉ p.channels ∧ p' = ⟨Function.update p.index i p.pollfds.length,
      p.pollfds ++ [⟨c.fd, c.events.setWidth 16, 0⟩], p.channels.insert c.fd i⟩) ∨
    (0 ≤ p.index i ∧ p.channels.lookup c.fd = some i ∧ ∃ pfd : Pollfd,
      (pfd.fd = c.fd ∨ pfd.fd = -c.fd - 1) ∧
      p' = { p with pollfds := p.pollfds.set (p.index i).toNat (updatePollfd c pfd) }) := by
  unfold updateChannel at h
  split_ifs at h with hindex
  · obtain ⟨hout, hp'⟩ := check_bind_eq_ok_iff.mp h
    refine .inl ⟨hindex, hout, ?_⟩
    rw [← Except.ok.inj hp']
    simp [setIndex]
  · obtain ⟨-, h⟩ := check_bind_eq_ok_iff.mp h
    obtain ⟨hlookup, h⟩ := check_bind_eq_ok_iff.mp h
    split at h
    · cases h
    · next pfd _ =>
      obtain ⟨hfd, hp'⟩ := check_bind_eq_ok_iff.mp h
      exact .inr ⟨not_lt.mp hindex, hlookup, pfd, hfd, (Except.ok.inj hp').symm⟩

/-- A removal erases the channel from the map and its entry from the list. If that was not the last
entry, the channel that the map has for the last one gets its index. -/
theorem removeChannel_cases (h : p.removeChannel i c = .ok p') :
    p.channels.lookup c.fd = some i ∧ 0 ≤ p.index i ∧ p.index i < p.pollfds.length ∧
    p'.channels = p.channels.erase c.fd ∧
    p'.pollfds = swapRemove p.pollfds (p.index i).toNat ∧
    ((p.index i = p.pollfds.length - 1 ∧ p'.index = p.index) ∨
      ∃ pfd j, p.index i ≠ p.pollfds.length - 1 ∧ p.pollfds.getLast? = some pfd ∧
        (p.channels.erase c.fd).lookup pfd.channelFd = some j ∧
        p'.index = Function.update p.index j (p.index i)) := by
  unfold removeChannel at h
  obtain ⟨-, h⟩ := check_bind_eq_ok_iff.mp h
  obtain ⟨hlookup, h⟩ := check_bind_eq_ok_iff.mp h
  obtain ⟨-, h⟩ := check_bind_eq_ok_iff.mp h
  split at h
  · cases h
  next pfd hentry =>
  have hindex : 0 ≤ p.index i := by
    by_contra hneg
    rw [entry_of_neg (not_le.mp hneg)] at hentry
    cases hentry
  rw [entry_of_nonneg hindex] at hentry
  obtain ⟨hlt, -⟩ := List.getElem?_eq_some_iff.mp hentry
  obtain ⟨-, h⟩ := check_bind_eq_ok_iff.mp h
  obtain ⟨-, h⟩ := check_bind_eq_ok_iff.mp h
  refine ⟨hlookup, hindex, by omega, ?_⟩
  unfold erasePollfd at h
  simp only at h
  split_ifs at h with hlast
  · obtain rfl := Except.ok.inj h
    exact ⟨rfl, (swapRemove_last hlt hlast).symm, .inl ⟨by omega, rfl⟩⟩
  · split at h
    · cases h
    next j hj =>
    obtain ⟨last, hlast?, hj⟩ := Option.bind_eq_some_iff.mp hj
    obtain rfl := Except.ok.inj h
    refine ⟨rfl, rfl, .inr ⟨last, j, by omega, hlast?, hj, ?_⟩⟩
    rw [setIndex, Int.toNat_of_nonneg hindex]

end PollPoller

/-! ## The invariant -/

/-- The poller without the indices of the channels that are not in `keep`. -/
def PollPoller.forget (keep : ι → Bool) (p : PollPoller ι) : PollPoller ι :=
  { p with index := fun i => if keep i then p.index i else -1 }

namespace PollSystem

variable {s : PollSystem ι}

/-- The poller, with the indices of the registered channels only. -/
def known (s : PollSystem ι) : PollPoller ι :=
  s.poller.forget fun i => (s.channel i).addedToLoop

/-- The poller tracks the channels, but for the indices of removed ones. `fresh` : a channel that
is not registered and was not removed has no index. -/
structure Inv (s : PollSystem ι) : Prop where
  tracked : PollInv s.channel s.known
  fresh : ∀ i, i ∉ s.removed → (s.channel i).addedToLoop = false → s.poller.index i < 0
  mapped : ∀ fd i, s.poller.channels.lookup fd = some i → (s.channel i).fd = fd
  size : s.poller.channels.keys.card = s.poller.pollfds.length

theorem known_index {i : ι} (h : (s.channel i).addedToLoop = true) :
    s.known.index i = s.poller.index i :=
  if_pos h

theorem known_index_of_not {i : ι} (h : (s.channel i).addedToLoop = false) :
    s.known.index i = -1 :=
  if_neg (by simpa using h)

theorem added_of_known {i : ι} (h : 0 ≤ s.known.index i) : (s.channel i).addedToLoop = true := by
  by_contra hadded
  rw [known_index_of_not (Bool.not_eq_true _ ▸ hadded)] at h
  omega

theorem Inv.new {fd : ι → ℤ} (hfd : Function.Injective fd) (hnonneg : ∀ i, 0 ≤ fd i) :
    (PollSystem.new fd).Inv where
  tracked := .new hfd hnonneg
  fresh _ _ _ := show (-1 : ℤ) < 0 by decide
  mapped _ _ h := by cases h
  size := rfl

/-- A registered channel is in the map, and its index leads to its entry. -/
theorem Inv.entry (h : s.Inv) {i : ι} (hadded : (s.channel i).addedToLoop = true) :
    s.poller.channels.lookup (s.channel i).fd = some i ∧ 0 ≤ s.poller.index i ∧
    ∃ pfd, s.poller.pollfds[(s.poller.index i).toNat]? = some pfd ∧
      (pfd.fd = (s.channel i).fd ∨ pfd.fd = -(s.channel i).fd - 1) := by
  cases h.tracked.tracks i with
  | new hnot => exact absurd (hadded.symm.trans hnot) (by decide)
  | added _ hindex hlookup pfd hpfd hfd _ =>
    rw [PollPoller.entry_of_nonneg hindex] at hpfd
    rw [known_index hadded] at hindex hpfd
    exact ⟨hlookup, hindex, pfd, hpfd, hfd⟩

/-- The channels in the map are registered. -/
theorem Inv.added_of_lookup (h : s.Inv) {fd : ℤ} {i : ι}
    (hlookup : s.poller.channels.lookup fd = some i) : (s.channel i).addedToLoop = true := by
  cases h.tracked.tracks i with
  | new _ _ hout =>
    rw [h.mapped fd i hlookup] at hout
    exact absurd (mem_of_lookup hlookup) hout
  | added hadded => exact hadded

theorem Inv.index_ne (h : s.Inv) {i j : ι} (hi : (s.channel i).addedToLoop = true)
    (hj : (s.channel j).addedToLoop = true) (hij : j ≠ i) :
    s.poller.index j ≠ s.poller.index i := by
  obtain ⟨-, hindex, -⟩ := h.entry hi
  have hne := h.tracked.index_ne hij (by rwa [known_index hi])
  rwa [known_index hi, known_index hj] at hne

/-- Every entry is that of a registered channel. -/
theorem Inv.owner (h : s.Inv) {k : ℕ} {pfd : Pollfd} (hpfd : s.poller.pollfds[k]? = some pfd) :
    ∃ i, (s.channel i).addedToLoop = true ∧ s.poller.index i = k ∧
      (pfd.fd = (s.channel i).fd ∨ pfd.fd = -(s.channel i).fd - 1) := by
  obtain ⟨hk, -⟩ := List.getElem?_eq_some_iff.mp hpfd
  obtain ⟨i, hi⟩ := h.tracked.owned k hk
  have hadded : (s.channel i).addedToLoop = true := added_of_known (by omega)
  rw [known_index hadded] at hi
  obtain ⟨-, -, pfd', hpfd', hfd⟩ := h.entry hadded
  rw [hi, Int.toNat_natCast] at hpfd'
  obtain rfl := Option.some.inj (hpfd.symm.trans hpfd')
  exact ⟨i, hadded, hi, hfd⟩

/-- The channel that the map has for the descriptor of an entry is the one with that entry. -/
theorem Inv.index_of_channelFd (h : s.Inv) {k : ℕ} {pfd : Pollfd} {j : ι}
    (hpfd : s.poller.pollfds[k]? = some pfd)
    (hj : s.poller.channels.lookup pfd.channelFd = some j) : s.poller.index j = k := by
  obtain ⟨i, -, hi, hfd⟩ := h.owner hpfd
  have heq : (s.channel j).fd = (s.channel i).fd := by
    rw [h.mapped _ _ hj, Pollfd.channelFd_eq hfd (h.tracked.nonneg i)]
  rw [h.tracked.distinct heq]
  exact hi

variable [DecidableEq ι]

/-- The indices that are known after a call that registers `i`, or leaves it registered. -/
theorem known_update {i : ι} {c : Channel} {poller : PollPoller ι} {removed : List ι}
    (hadded : c.addedToLoop = true)
    (hothers : ∀ j, j ≠ i → poller.index j = s.poller.index j) :
    (PollSystem.mk (Function.update s.channel i c) poller removed).known.index =
      Function.update s.known.index i (poller.index i) := by
  ext j
  rcases eq_or_ne j i with rfl | hj
  · rw [Function.update_self]
    exact known_index (by simpa using hadded)
  · simp only [known, PollPoller.forget, Function.update_of_ne hj, hothers j hj]

/-- A channel with the members `c` is where `i` was, and the map has `i` for its descriptor. -/
theorem Inv.of_interest (h : s.Inv) {i : ι} {c : Channel} (hc : c.fd = (s.channel i).fd)
    (hadded : c.addedToLoop = true) {poller : PollPoller ι}
    (hothers : ∀ j, j ≠ i → poller.index j = s.poller.index j)
    (hlookup : ∀ fd j, poller.channels.lookup fd = some j →
      (fd = c.fd ∧ j = i) ∨ s.poller.channels.lookup fd = some j)
    (htracked : PollInv (Function.update s.channel i c)
      ⟨Function.update s.known.index i (poller.index i), poller.pollfds, poller.channels⟩)
    (hsize : poller.channels.keys.card = poller.pollfds.length) :
    Inv { s with channel := Function.update s.channel i c, poller := poller } := by
  have hknown : known { s with channel := Function.update s.channel i c, poller := poller } =
      ⟨Function.update s.known.index i (poller.index i), poller.pollfds, poller.channels⟩ :=
    congrArg (fun index => PollPoller.mk index poller.pollfds poller.channels)
      (known_update hadded hothers)
  refine ⟨by rwa [hknown], fun j hj hnot => ?_, fun fd j hj => ?_, hsize⟩
  · rcases eq_or_ne j i with rfl | hne
    · simp [hadded] at hnot
    · simp only [hothers j hne]
      exact h.fresh j hj (by simpa [Function.update_of_ne hne] using hnot)
  · have hfd : ((Function.update s.channel i c) j).fd = (s.channel j).fd := by
      rcases eq_or_ne j i with rfl | hne
      · rw [Function.update_self, hc]
      · rw [Function.update_of_ne hne]
    rw [hfd]
    rcases hlookup fd j hj with ⟨rfl, rfl⟩ | hold
    · exact hc.symm
    · exact h.mapped fd j hold

theorem Inv.interest (h : s.Inv) {i : ι} {c : Channel} (hc : c.fd = (s.channel i).fd)
    (hmask : c.events ∈ Channel.masks) (hadded : c.addedToLoop = true) (hi : i ∉ s.removed)
    {poller : PollPoller ι} (hx : s.poller.updateChannel i c = .ok poller) :
    Inv { s with channel := Function.update s.channel i c, poller := poller } := by
  rcases PollPoller.updateChannel_cases hx with
    ⟨hneg, hout, rfl⟩ | ⟨hnonneg, hlookup, pfd, hfd, rfl⟩
  · have hknown : s.known.index i < 0 := by
      by_contra hindex
      rw [known_index (added_of_known (not_lt.mp hindex))] at hindex
      exact hindex hneg
    refine h.of_interest hc hadded (fun j hj => Function.update_of_ne hj ..) (fun fd j hj => ?_)
      ?_ ?_
    · rw [lookup_insert_eq] at hj
      split_ifs at hj with heq
      · exact .inl ⟨heq, (Option.some.inj hj).symm⟩
      · exact .inr hj
    · refine (h.tracked.append hc hmask hadded hknown ?_).1
      simp only [Function.update_self]
      rfl
    · rw [card_keys_insert _ _ hout, h.size, List.length_append, List.length_singleton]
  · have hreg : (s.channel i).addedToLoop = true := by
      by_contra hnot
      have hfresh := h.fresh i hi (by simpa using hnot)
      omega
    have hknown := known_index hreg
    refine h.of_interest hc hadded (fun _ _ => rfl) (fun fd j hj => .inr hj) ?_ ?_
    · rw [← hknown, Function.update_eq_self]
      exact (h.tracked.set hc hmask hadded (by omega) hlookup hfd (by rw [hknown]; rfl)).1
    · rw [h.size, List.length_set]

/-- A removal gives the index of the removed channel to the channel of the last entry, and to no
other. -/
theorem Inv.index_after_remove (h : s.Inv) {i : ι} {c : Channel} {poller : PollPoller ι}
    (hx : s.poller.removeChannel i c = .ok poller) {k : ι} (hk : k ≠ i)
    (hadded : (s.channel k).addedToLoop = true) :
    poller.index k = if s.poller.index k = s.poller.pollfds.length - 1 then s.poller.index i
      else s.poller.index k := by
  obtain ⟨hlookup, -, -, -, -, hcases⟩ := PollPoller.removeChannel_cases hx
  have hi := h.added_of_lookup hlookup
  have hne := h.index_ne hi hadded hk
  rcases hcases with ⟨hlast, hindex⟩ | ⟨pfd, j, -, hpfd, hj, hindex⟩
  · rw [hindex, if_neg (by omega)]
  · rw [lookup_erase_eq] at hj
    split_ifs at hj with hfd
    rw [List.getLast?_eq_getElem?] at hpfd
    have hjlast := h.index_of_channelFd hpfd hj
    have hlt : 0 < s.poller.pollfds.length := by
      have hlt := (List.getElem?_eq_some_iff.mp hpfd).1
      omega
    rw [hindex]
    split_ifs with hklast
    · obtain rfl : k = j := by
        by_contra hkj
        exact h.index_ne (h.added_of_lookup hj) hadded hkj (by omega)
      exact Function.update_self ..
    · refine Function.update_of_ne ?_ ..
      rintro rfl
      omega

theorem Inv.index_after_remove_of_ne (h : s.Inv) {i : ι} {c : Channel} {poller : PollPoller ι}
    (hx : s.poller.removeChannel i c = .ok poller) :
    ∃ j, (s.channel j).addedToLoop = true ∧ ∀ k, k ≠ j → poller.index k = s.poller.index k := by
  obtain ⟨hlookup, -, -, -, -, ⟨-, hindex⟩ | ⟨pfd, j, -, -, hj, hindex⟩⟩ :=
    PollPoller.removeChannel_cases hx
  · exact ⟨i, h.added_of_lookup hlookup, fun k _ => by rw [hindex]⟩
  · rw [lookup_erase_eq] at hj
    split_ifs at hj
    exact ⟨j, h.added_of_lookup hj, fun k hk => by rw [hindex, Function.update_of_ne hk]⟩

/-- The entry of a channel that is not removed stays where it is, or moves from the end. -/
theorem Inv.entry_after_remove (h : s.Inv) {i j : ι} {c : Channel} {poller : PollPoller ι}
    (hx : s.poller.removeChannel i c = .ok poller) (hj : j ≠ i)
    (hadded : (s.channel j).addedToLoop = true) :
    0 ≤ poller.index j ∧ poller.pollfds[(poller.index j).toNat]? =
      s.poller.pollfds[(s.poller.index j).toNat]? := by
  obtain ⟨hlookup, hindex, hlt, -, hpollfds, -⟩ := PollPoller.removeChannel_cases hx
  obtain ⟨-, hjindex, pfd, hentry, -⟩ := h.entry hadded
  have hbound := (List.getElem?_eq_some_iff.mp hentry).1
  have hne := h.index_ne (h.added_of_lookup hlookup) hadded hj
  have hswap : (s.poller.index i).toNat < s.poller.pollfds.length := by omega
  rw [hpollfds, h.index_after_remove hx hj hadded]
  split_ifs with hlast
  · refine ⟨hindex, ?_⟩
    rw [getElem?_swapRemove hswap (by omega), if_pos rfl, List.getLast?_eq_getElem?]
    congr 1
    omega
  · refine ⟨hjindex, ?_⟩
    rw [getElem?_swapRemove hswap (by omega), if_neg (by omega)]

section Remove

variable {i : ι} {c : Channel} {u : PollSystem ι} (h : s.Inv) (hc : c.fd = (s.channel i).fd)
  (hnot : c.addedToLoop = false) (hchannel : u.channel = Function.update s.channel i c)
  (hx : s.poller.removeChannel i c = .ok u.poller)

include h hchannel hx

theorem Inv.owned_after_remove (k : ℕ) (hk : k < u.poller.pollfds.length) :
    ∃ j, u.known.index j = k := by
  obtain ⟨-, hindex, hlt, -, hpollfds, -⟩ := PollPoller.removeChannel_cases hx
  rw [hpollfds, length_swapRemove (by omega)] at hk
  -- the entry at `k` is the one that was there, or the one that was last
  obtain ⟨k', hk', hmoved⟩ : ∃ k' : ℕ, k' < s.poller.pollfds.length ∧
      ((k = s.poller.index i ∧ k' = s.poller.pollfds.length - 1) ∨
        (k ≠ s.poller.index i ∧ k' = k)) := by
    by_cases heq : k = s.poller.index i
    · exact ⟨s.poller.pollfds.length - 1, by omega, .inl ⟨heq, rfl⟩⟩
    · exact ⟨k, by omega, .inr ⟨heq, rfl⟩⟩
  obtain ⟨j, hadded, hjindex, -⟩ := h.owner (List.getElem?_eq_getElem hk')
  have hj : j ≠ i := by
    rintro rfl
    omega
  have hother : u.channel j = s.channel j := by rw [hchannel, Function.update_of_ne hj]
  refine ⟨j, ?_⟩
  rw [known_index (by rw [hother, hadded]), h.index_after_remove hx hj hadded]
  split_ifs <;> omega

include hc hnot

/-- The removed channel has no entry, and every other one has the entry that it had. -/
theorem Inv.tracks_after_remove (j : ι) : u.known.Tracks j (u.channel j) := by
  obtain ⟨-, -, -, hchannels, -, -⟩ := PollPoller.removeChannel_cases hx
  have hlookup : ∀ fd, u.known.channels.lookup fd =
      if fd = c.fd then none else s.poller.channels.lookup fd := by
    intro fd
    rw [known, PollPoller.forget, hchannels, lookup_erase_eq]
  rcases eq_or_ne j i with rfl | hj
  · have hself : u.channel j = c := by rw [hchannel, Function.update_self]
    have hneg : u.known.index j = -1 := known_index_of_not (by rw [hself, hnot])
    refine .new (by rw [hself, hnot]) (by omega) ?_
    rw [← Finmap.lookup_eq_none, hself, hlookup, if_pos rfl]
  · have hother : u.channel j = s.channel j := by rw [hchannel, Function.update_of_ne hj]
    have hfd : (s.channel j).fd ≠ c.fd := fun heq => hj (h.tracked.distinct (heq.trans hc))
    rw [hother]
    cases h.tracked.tracks j with
    | new hadded _ hout =>
      have hneg : u.known.index j = -1 := known_index_of_not (by rw [hother, hadded])
      refine .new hadded (by omega) ?_
      rwa [← Finmap.lookup_eq_none, hlookup, if_neg hfd, Finmap.lookup_eq_none]
    | added hadded hindex hjlookup pfd hentry hpfd hevents =>
      have hknown : u.known.index j = u.poller.index j := known_index (by rw [hother, hadded])
      obtain ⟨hafter, hsame⟩ := h.entry_after_remove hx hj hadded
      rw [PollPoller.entry_of_nonneg hindex, known_index hadded] at hentry
      refine .added hadded (by rwa [hknown]) (by rwa [hlookup, if_neg hfd]) pfd ?_ hpfd hevents
      rw [PollPoller.entry_of_nonneg (by rwa [hknown]), hknown]
      exact hsame.trans hentry

theorem Inv.remove (hmask : c.events ∈ Channel.masks) (hremoved : u.removed = i :: s.removed) :
    u.Inv := by
  obtain ⟨hlookup, hindex, hlt, hchannels, hpollfds, -⟩ := PollPoller.removeChannel_cases hx
  have htracks := h.tracks_after_remove hc hnot hchannel hx
  have hself : u.channel i = c := by rw [hchannel, Function.update_self]
  have hother : ∀ j, j ≠ i → u.channel j = s.channel j := fun j hj => by
    rw [hchannel, Function.update_of_ne hj]
  refine ⟨?_, fun j hj hadded => ?_, fun fd j hj => ?_, ?_⟩
  · rw [hchannel]
    exact h.tracked.of_update hc hmask (hself ▸ htracks i) (fun j hj => hother j hj ▸ htracks j)
      (h.owned_after_remove hchannel hx)
  · rw [hremoved, List.mem_cons, not_or] at hj
    rw [hother j hj.1] at hadded
    obtain ⟨m, hm, hsame⟩ := h.index_after_remove_of_ne hx
    have hjm : j ≠ m := by
      rintro rfl
      exact absurd (hadded.symm.trans hm) (by decide)
    rw [hsame j hjm]
    exact h.fresh j hj.2 hadded
  · rw [hchannels, lookup_erase_eq] at hj
    split_ifs at hj with hfd
    have hji : j ≠ i := by
      rintro rfl
      exact hfd ((h.mapped fd j hj).symm.trans hc.symm)
    rw [hother j hji]
    exact h.mapped fd j hj
  · rw [hchannels, hpollfds, card_keys_erase _ (mem_of_lookup hlookup), h.size,
      length_swapRemove (by omega)]

end Remove

omit [DecidableEq ι] in
/-- `::poll` writes `revents` only. -/
theorem Inv.poll (h : s.Inv) (revents : ℕ → BitVec 16) :
    Inv { s with poller := { s.poller with pollfds := s.poller.polled revents } } := by
  have hlength : (s.poller.polled revents).length = s.poller.pollfds.length :=
    List.length_mapIdx
  refine ⟨⟨h.tracked.distinct, h.tracked.nonneg, h.tracked.masks, fun j => ?_, fun k hk => ?_⟩,
    h.fresh, h.mapped, h.size.trans hlength.symm⟩
  · cases h.tracked.tracks j with
    | new hadded hindex hout => exact .new hadded hindex hout
    | added hadded hindex hlookup pfd hentry hfd hevents =>
      refine .added hadded hindex hlookup
        { pfd with revents := revents (s.known.index j).toNat } ?_ hfd hevents
      rw [PollPoller.entry_of_nonneg hindex] at hentry
      refine (if_neg (not_lt.mpr hindex)).trans ?_
      change (s.poller.polled revents)[(s.known.index j).toNat]? = _
      rw [PollPoller.polled, List.getElem?_mapIdx]
      exact congrArg (Option.map _) hentry
  · exact h.tracked.owned k (hlength ▸ hk)

theorem Inv.step {u : PollSystem ι} (h : s.Inv) {l : PollCall ι} (he : (pollMachine ι).enabled s l)
    (hx : (pollMachine ι).exec s l = .ok u) : u.Inv := by
  cases l with
  | interest i op =>
    obtain ⟨poller, hpoller, rfl⟩ := bind_pure_eq_ok_iff.mp hx
    exact h.interest (Channel.call_fd _ op) (Channel.call_mem_masks (h.tracked.masks i) op)
      (Channel.call_addedToLoop _ op) he hpoller
  | remove i =>
    obtain ⟨c, hc, hx⟩ := bind_eq_ok_iff.mp hx
    obtain ⟨poller, hpoller, rfl⟩ := bind_pure_eq_ok_iff.mp hx
    obtain ⟨-, hremove⟩ := check_bind_eq_ok_iff.mp (mapError_eq_ok_iff.mp hc)
    obtain rfl := Except.ok.inj hremove
    exact h.remove (c := { s.channel i with addedToLoop := false }) rfl rfl rfl hpoller
      (h.tracked.masks i) rfl
  | poll revents =>
    obtain ⟨⟨poller, active⟩, hpoller, rfl⟩ := bind_pure_eq_ok_iff.mp hx
    rw [PollPoller.poll] at hpoller
    split_ifs at hpoller
    · obtain ⟨_, -, hpoller⟩ := bind_pure_eq_ok_iff.mp hpoller
      obtain ⟨rfl, -⟩ := Prod.mk.inj hpoller
      exact h.poll revents
    · obtain ⟨rfl, -⟩ := Prod.mk.inj (Except.ok.inj hpoller)
      exact h.poll revents

/-! ## The bijection -/

omit [DecidableEq ι] in
/-- The channels in the map have the entries of the list, one each. -/
structure IndexBijection (s : PollSystem ι) : Prop where
  size : s.poller.pollfds.length = s.poller.channels.keys.card
  entry : ∀ fd i, s.poller.channels.lookup fd = some i → (s.channel i).fd = fd ∧
    0 ≤ s.poller.index i ∧ s.poller.index i < s.poller.pollfds.length ∧
    ∃ pfd, s.poller.pollfds[(s.poller.index i).toNat]? = some pfd ∧ pfd.channelFd = fd
  distinct : ∀ fd fd' i j, s.poller.channels.lookup fd = some i →
    s.poller.channels.lookup fd' = some j → i ≠ j → s.poller.index i ≠ s.poller.index j

omit [DecidableEq ι] in
theorem Inv.indexBijection (h : s.Inv) : s.IndexBijection := by
  refine ⟨h.size.symm, fun fd i hi => ?_, fun fd fd' i j hi hj hij => ?_⟩
  · obtain ⟨-, hindex, pfd, hpfd, hfd⟩ := h.entry (h.added_of_lookup hi)
    have hlt := (List.getElem?_eq_some_iff.mp hpfd).1
    refine ⟨h.mapped fd i hi, hindex, by omega, pfd, hpfd, ?_⟩
    rw [Pollfd.channelFd_eq hfd (h.tracked.nonneg i), h.mapped fd i hi]
  · exact h.index_ne (h.added_of_lookup hj) (h.added_of_lookup hi) hij

end PollSystem

/-- In every run of updates, removals and polls on channels with distinct descriptors, the
registered channels and the entries of `pollfds_` correspond one to one, and a removal changes the
index of at most one other channel. -/
theorem poll_index_bijection [DecidableEq ι] {fd : ι → ℤ} (hfd : Function.Injective fd)
    (hnonneg : ∀ i, 0 ≤ fd i) {ls : List (PollCall ι)} {t : PollSystem ι}
    (hrun : (pollMachine ι).Run (.new fd) ls t) :
    t.IndexBijection ∧ ∀ i u, (pollMachine ι).exec t (.remove i) = .ok u →
      { k | k ≠ i ∧ u.poller.index k ≠ t.poller.index k }.Subsingleton := by
  have hinv : t.Inv := hrun.invariant (.new hfd hnonneg) fun _ _ _ h he hx => h.step he hx
  refine ⟨hinv.indexBijection, fun i u hx => ?_⟩
  obtain ⟨c, -, hx⟩ := bind_eq_ok_iff.mp hx
  obtain ⟨poller, hpoller, rfl⟩ := bind_pure_eq_ok_iff.mp hx
  obtain ⟨j, -, hsame⟩ := hinv.index_after_remove_of_ne hpoller
  have heq : ∀ k, poller.index k ≠ t.poller.index k → k = j := fun k hk =>
    not_not.mp fun hkj => hk (hsame k hkj)
  rintro k ⟨-, hk⟩ k' ⟨-, hk'⟩
  exact (heq k hk).trans (heq k' hk').symm

/-- Three channels are registered, the last of them is switched off, and the first is removed : the
entry of the last, whose descriptor is negated, takes its place. -/
theorem poll_index_bijection_moved : ∃ t,
    (pollMachine (Fin 3)).Run (.new fun i => i)
      [.interest 0 .enableReading, .interest 1 .enableWriting, .interest 2 .enableReading,
        .interest 2 .disableAll, .interest 0 .disableAll, .remove 0] t ∧
    t.IndexBijection ∧ t.poller.pollfds = [⟨-3, 0, 0⟩, ⟨1, 4, 0⟩] ∧ t.poller.index 2 = 0 := by
  have hrun : (pollMachine (Fin 3)).Run (.new fun i => i)
      [.interest 0 .enableReading, .interest 1 .enableWriting, .interest 2 .enableReading,
        .interest 2 .disableAll, .interest 0 .disableAll, .remove 0] _ := .of_play rfl
  have hfd : Function.Injective fun i : Fin 3 => (i : ℤ) := fun i j h => by
    simp only at h
    omega
  exact ⟨_, hrun, (poll_index_bijection hfd (fun i => by omega) hrun).1, rfl, rfl⟩

end Tmuduo
