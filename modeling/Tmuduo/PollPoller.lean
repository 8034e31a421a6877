import Mathlib.Data.Set.Defs
import Mathlib.Tactic.Common
import Tmuduo.EPollPoller

/-!
# The poll poller

`PollPoller ι` is `tmuduo::net::PollPoller`. A registered channel has an entry in `pollfds_`, at
its index. An entry whose descriptor is negated is one that `::poll` ignores.

An update with an empty mask negates the descriptor, and no update takes that back. So a channel
that was switched off is not watched when it is switched on again. The two pollers watch the
same things all along a run if and only if that does not happen (`pollers_agree_iff`);
`pollers_disagree` is a channel that is lost.
-/

set_option autoImplicit false

namespace Tmuduo

/-- `struct pollfd`. -/
structure Pollfd where
  fd : ℤ
  events : BitVec 16
  revents : BitVec 16
  deriving DecidableEq, Repr

/-- `tmuduo::net::PollPoller`. -/
structure PollPoller (ι : Type) where
  index : ι → ℤ
  pollfds : List Pollfd
  channels : Finmap fun _ : ℤ => ι

variable {ι : Type}

namespace PollPoller

/-- `PollPoller::PollPoller`. A channel's index is `-1` until a poller sets it. -/
def new : PollPoller ι := ⟨fun _ => -1, [], ∅⟩

variable [DecidableEq ι] (p : PollPoller ι)

/-- `channel->setIndex(index)`. -/
def setIndex (i : ι) (index : ℤ) : PollPoller ι :=
  { p with index := Function.update p.index i index }

omit [DecidableEq ι] in
/-- The entry that the index of a channel points to. -/
def entry (i : ι) : Option Pollfd :=
  if p.index i < 0 then none else p.pollfds[(p.index i).toNat]?

/-- The entry of a registered channel after an update. -/
def updatePollfd (c : Channel) (pfd : Pollfd) : Pollfd :=
  let pfd := { pfd with events := c.events.setWidth 16, revents := 0 }
  if c.isNoneEvent then { pfd with fd := -c.fd - 1 } else pfd

omit [DecidableEq ι] in
theorem updatePollfd_fd {c : Channel} {pfd : Pollfd} (h : c.events ≠ 0) :
    (updatePollfd c pfd).fd = pfd.fd := by
  have hnone : c.isNoneEvent = false := beq_eq_false_iff_ne.mpr h
  simp [updatePollfd, hnone]

def updateChannel (i : ι) (c : Channel) : Except PollerFault (PollPoller ι) :=
  if p.index i < 0 then do
    check (c.fd ∉ p.channels) .updateNew
    let pollfds := p.pollfds ++ [⟨c.fd, c.events.setWidth 16, 0⟩]
    return ({ p with pollfds := pollfds, channels := p.channels.insert c.fd i }).setIndex i
      (pollfds.length - 1)
  else do
    check (c.fd ∈ p.channels) .updateFound
    check (p.channels.lookup c.fd = some i) .updateSame
    match p.pollfds[(p.index i).toNat]? with
    | none => .error .updateIndex
    | some pfd => do
      check (pfd.fd = c.fd ∨ pfd.fd = -c.fd - 1) .updatePollfd
      return { p with pollfds := p.pollfds.set (p.index i).toNat (updatePollfd c pfd) }

end PollPoller

/-- The channels of a loop, with a poller of each kind that has seen the same calls. -/
structure PollerPair (ι : Type) where
  channel : ι → Channel
  epoll : EPollPoller ι
  poll : PollPoller ι

/-- Channels that have just been constructed, and new pollers. -/
def PollerPair.new (fd : ι → ℤ) : PollerPair ι :=
  ⟨fun i => .new (fd i), .new, .new⟩

/-- The calls that change the interest of a channel, given to both pollers. -/
def pollerPair (ι : Type) [DecidableEq ι] :
    Machine (PollerPair ι) (ι × InterestOp) PollerFault where
  enabled _ _ := True
  exec s l := do
    let c := (s.channel l.1).call l.2
    let epoll ← s.epoll.updateChannel l.1 c
    let poll ← s.poll.updateChannel l.1 c
    return ⟨Function.update s.channel l.1 c, epoll, poll⟩

instance [DecidableEq ι] (s : PollerPair ι) (l : ι × InterestOp) :
    Decidable ((pollerPair ι).enabled s l) :=
  isTrue trivial

/-! ## What the pollers watch -/

namespace PollerPair

variable (s : PollerPair ι)

/-- The live entries that `PollPoller` passes to `::poll`. -/
def live : Set (ℤ × BitVec 32) :=
  { x | ∃ pfd ∈ s.poll.pollfds, 0 ≤ pfd.fd ∧ pfd.events ≠ 0 ∧
    x = (pfd.fd, pfd.events.signExtend 32) }

/-- The registered channels with a mask that is not empty. -/
def watched : Set (ℤ × BitVec 32) :=
  { x | ∃ i, (s.channel i).addedToLoop = true ∧ (s.channel i).events ≠ 0 ∧
    x = ((s.channel i).fd, (s.channel i).events) }

/-- The interest set of `EPollPoller`, as far as its masks are not empty. -/
def interest : Set (ℤ × BitVec 32) :=
  { x | ∃ i, x.2 ≠ 0 ∧ s.epoll.kernel.lookup x.1 = some (x.2, i) }

/-- The two pollers watch the registered channels. -/
def Agree : Prop := s.live = s.watched ∧ s.watched = s.interest

end PollerPair

/-- The call does not switch on a channel whose entry is negated. -/
def NotSwitchedOnAgain (s : PollerPair ι) (l : ι × InterestOp) : Prop :=
  ((s.channel l.1).call l.2).events ≠ 0 → ∀ pfd ∈ s.poll.entry l.1, 0 ≤ pfd.fd

instance (s : PollerPair ι) (l : ι × InterestOp) : Decidable (NotSwitchedOnAgain s l) :=
  inferInstanceAs (Decidable (_ → _))

/-! ## The invariant -/

/-- The masks that the calls on a channel lead to. -/
def Channel.masks : List (BitVec 32) := [0, 3, 4, 7]

theorem Channel.call_mem_masks {c : Channel} (h : c.events ∈ masks) (op : InterestOp) :
    (c.call op).events ∈ masks := by
  have hall : ∀ events ∈ masks, ∀ op, ((⟨0, events, true⟩ : Channel).call op).events ∈ masks := by
    intro events hevents op
    simp only [masks, List.mem_cons, List.not_mem_nil, or_false] at hevents
    rcases hevents with rfl | rfl | rfl | rfl <;> cases op <;> decide
  have heq : (c.call op).events = ((⟨0, c.events, true⟩ : Channel).call op).events := by
    cases op <;> rfl
  rw [heq]
  exact hall c.events h op

/-- A mask survives the conversion to `short` and back. -/
theorem Channel.signExtend_setWidth {events : BitVec 32} (h : events ∈ masks) :
    (events.setWidth 16).signExtend 32 = events := by
  simp only [masks, List.mem_cons, List.not_mem_nil, or_false] at h
  rcases h with rfl | rfl | rfl | rfl <;> decide

namespace PollPoller

/-- The entry of the channel `i` is there exactly when it is registered, and it holds the mask
and the descriptor of the channel, which may be negated. -/
inductive Tracks (i : ι) (c : Channel) (p : PollPoller ι) : Prop
  | new (hadded : c.addedToLoop = false) (hindex : p.index i < 0) (hout : c.fd ∉ p.channels)
  | added (hadded : c.addedToLoop = true) (hindex : 0 ≤ p.index i)
      (hchannels : p.channels.lookup c.fd = some i) (pfd : Pollfd)
      (hentry : p.entry i = some pfd) (hfd : pfd.fd = c.fd ∨ pfd.fd = -c.fd - 1)
      (hevents : pfd.events = c.events.setWidth 16)

variable {p : PollPoller ι} {i j : ι}

theorem entry_of_neg (h : p.index i < 0) : p.entry i = none :=
  if_pos h

theorem entry_of_nonneg (h : 0 ≤ p.index i) : p.entry i = p.pollfds[(p.index i).toNat]? :=
  if_neg (not_lt.mpr h)

theorem mem_of_entry {pfd : Pollfd} (h : p.entry i = some pfd) : pfd ∈ p.pollfds := by
  unfold entry at h
  split_ifs at h
  exact List.mem_of_getElem? h

/-- A channel that keeps its index and its place in the list keeps its entry. -/
theorem entry_congr {p' : PollPoller ι} (hindex : p'.index j = p.index j)
    (hpollfds : 0 ≤ p.index j →
      p'.pollfds[(p.index j).toNat]? = p.pollfds[(p.index j).toNat]?) :
    p'.entry j = p.entry j := by
  unfold entry
  rw [hindex]
  split_ifs with hneg
  · rfl
  · exact hpollfds (not_lt.mp hneg)

/-- The channel `j` is tracked as before when neither its entry nor its place in the map
changes. -/
theorem Tracks.frame {c : Channel} {p' : PollPoller ι} (h : p.Tracks j c)
    (hindex : p'.index j = p.index j) (hentry : p'.entry j = p.entry j)
    (hchannels : p'.channels.lookup c.fd = p.channels.lookup c.fd) : p'.Tracks j c := by
  cases h with
  | new hadded hneg hout =>
    refine .new hadded (by rwa [hindex]) ?_
    rwa [← Finmap.lookup_eq_none, hchannels, Finmap.lookup_eq_none]
  | added hadded hnonneg hlookup pfd hpfd hfd hevents =>
    exact .added hadded (by rwa [hindex]) (by rwa [hchannels]) pfd (by rwa [hentry]) hfd hevents

end PollPoller

/-- What the channels and the poller keep. -/
structure PollInv (channel : ι → Channel) (p : PollPoller ι) : Prop where
  distinct : Function.Injective fun i => (channel i).fd
  nonneg : ∀ i, 0 ≤ (channel i).fd
  masks : ∀ i, (channel i).events ∈ Channel.masks
  tracks : ∀ i, p.Tracks i (channel i)
  owned : ∀ k < p.pollfds.length, ∃ i, p.index i = k

namespace PollInv

variable {channel : ι → Channel} {p : PollPoller ι}

theorem new {fd : ι → ℤ} (hfd : Function.Injective fd) (hnonneg : ∀ i, 0 ≤ fd i) :
    PollInv (fun i => .new (fd i)) (.new : PollPoller ι) where
  distinct := hfd
  nonneg := hnonneg
  masks _ := List.mem_cons_self
  tracks _ := .new rfl (show (-1 : ℤ) < 0 by decide) Finmap.notMem_empty
  owned k hk := absurd hk (Nat.not_lt_zero k)

theorem index_lt (h : PollInv channel p) {i : ι} (hi : 0 ≤ p.index i) :
    p.index i < p.pollfds.length := by
  cases h.tracks i with
  | new _ hindex _ => omega
  | added _ _ _ pfd hentry _ _ =>
    rw [PollPoller.entry_of_nonneg hi] at hentry
    obtain ⟨hlt, -⟩ := List.getElem?_eq_some_iff.mp hentry
    omega

/-- Distinct channels have distinct entries. -/
theorem index_ne (h : PollInv channel p) {i j : ι} (hij : j ≠ i) (hi : 0 ≤ p.index i) :
    p.index j ≠ p.index i := by
  intro heq
  cases h.tracks i with
  | new _ hindex _ => omega
  | added _ _ _ pfd hentry hfd _ =>
    cases h.tracks j with
    | new _ hindex _ => omega
    | added _ _ _ pfd' hentry' hfd' _ =>
      rw [PollPoller.entry, heq] at hentry'
      obtain rfl := Option.some.inj (hentry.symm.trans hentry')
      have hi0 := h.nonneg i
      have hj0 := h.nonneg j
      exact hij (h.distinct (by simp only; omega))

variable [DecidableEq ι]

/-- The channel `i` has the members `c` now, and `p'` tracks every channel. -/
theorem of_update (h : PollInv channel p) {p' : PollPoller ι} {i : ι} {c : Channel}
    (hc : c.fd = (channel i).fd) (hmask : c.events ∈ Channel.masks) (hi : p'.Tracks i c)
    (hothers : ∀ j, j ≠ i → p'.Tracks j (channel j))
    (howned : ∀ k < p'.pollfds.length, ∃ i, p'.index i = k) :
    PollInv (Function.update channel i c) p' := by
  have hfds : ∀ j, (Function.update channel i c j).fd = (channel j).fd := by
    intro j
    rcases eq_or_ne j i with rfl | hj
    · rw [Function.update_self, hc]
    · rw [Function.update_of_ne hj]
  refine ⟨fun j k hjk => h.distinct ?_, fun j => ?_, fun j => ?_, fun j => ?_, howned⟩
  · simpa only [hfds] using hjk
  · rw [hfds]
    exact h.nonneg j
  all_goals rcases eq_or_ne j i with rfl | hj
  · rwa [Function.update_self]
  · rw [Function.update_of_ne hj]
    exact h.masks j
  · rwa [Function.update_self]
  · rw [Function.update_of_ne hj]
    exact hothers j hj

/-- The first update of a channel appends an entry. -/
theorem append (h : PollInv channel p) {i : ι} {c : Channel} (hc : c.fd = (channel i).fd)
    (hmask : c.events ∈ Channel.masks) (hadded : c.addedToLoop = true) (hindex : p.index i < 0)
    {p' : PollPoller ι} (hp' : p' = ⟨Function.update p.index i p.pollfds.length,
      p.pollfds ++ [⟨c.fd, c.events.setWidth 16, 0⟩], p.channels.insert c.fd i⟩) :
    PollInv (Function.update channel i c) p' ∧
      p'.entry i = some ⟨c.fd, c.events.setWidth 16, 0⟩ ∧
      ∀ j, j ≠ i → p'.entry j = p.entry j := by
  subst hp'
  have hothers : ∀ j, j ≠ i → PollPoller.entry ⟨Function.update p.index i p.pollfds.length,
      p.pollfds ++ [⟨c.fd, c.events.setWidth 16, 0⟩], p.channels.insert c.fd i⟩ j =
      p.entry j := by
    intro j hj
    refine PollPoller.entry_congr (Function.update_of_ne hj ..) fun hj0 => ?_
    have hlt := h.index_lt hj0
    exact List.getElem?_append_left (by omega)
  have hentry : PollPoller.entry ⟨Function.update p.index i p.pollfds.length,
      p.pollfds ++ [⟨c.fd, c.events.setWidth 16, 0⟩], p.channels.insert c.fd i⟩ i =
      some ⟨c.fd, c.events.setWidth 16, 0⟩ := by
    simp [PollPoller.entry]
  refine ⟨h.of_update hc hmask ?_ (fun j hj => ?_) fun k hk => ?_, hentry, hothers⟩
  · exact .added hadded (by simp) (by simp) _ hentry (.inl rfl) rfl
  · have hne : (channel j).fd ≠ c.fd := fun heq => hj (h.distinct (heq.trans hc))
    exact (h.tracks j).frame (Function.update_of_ne hj ..) (hothers j hj)
      (Finmap.lookup_insert_of_ne _ hne)
  · rcases Nat.lt_or_ge k p.pollfds.length with hlt | hge
    · obtain ⟨j, hj⟩ := h.owned k hlt
      have hne : j ≠ i := by
        rintro rfl
        omega
      exact ⟨j, by simp only [Function.update_of_ne hne, hj]⟩
    · obtain rfl : k = p.pollfds.length := by
        simp only [List.length_append, List.length_singleton] at hk
        omega
      exact ⟨i, Function.update_self ..⟩

/-- A later update changes the entry of the channel in place. -/
theorem set (h : PollInv channel p) {i : ι} {c : Channel} (hc : c.fd = (channel i).fd)
    (hmask : c.events ∈ Channel.masks) (hadded : c.addedToLoop = true) (hindex : 0 ≤ p.index i)
    (hchannels : p.channels.lookup c.fd = some i) {pfd : Pollfd}
    (hfd : pfd.fd = c.fd ∨ pfd.fd = -c.fd - 1) {p' : PollPoller ι}
    (hp' : p' = { p with
      pollfds := p.pollfds.set (p.index i).toNat (PollPoller.updatePollfd c pfd) }) :
    PollInv (Function.update channel i c) p' ∧
      p'.entry i = some (PollPoller.updatePollfd c pfd) ∧
      ∀ j, j ≠ i → p'.entry j = p.entry j := by
  subst hp'
  have hlt := h.index_lt hindex
  have hentry := (PollPoller.entry_of_nonneg (p := { p with
      pollfds := p.pollfds.set (p.index i).toNat (PollPoller.updatePollfd c pfd) }) hindex).trans
    (List.getElem?_set_self (by omega))
  have hothers : ∀ j, j ≠ i → PollPoller.entry { p with
      pollfds := p.pollfds.set (p.index i).toNat (PollPoller.updatePollfd c pfd) } j =
      p.entry j := by
    intro j hj
    refine PollPoller.entry_congr rfl fun hj0 => ?_
    have hne := h.index_ne hj hindex
    exact List.getElem?_set_ne (by omega)
  refine ⟨h.of_update hc hmask ?_ (fun j hj => ?_) fun k hk => ?_, hentry, hothers⟩
  · refine .added hadded hindex hchannels _ hentry ?_ ?_
    · unfold PollPoller.updatePollfd
      split_ifs
      · exact .inr rfl
      · exact hfd
    · unfold PollPoller.updatePollfd
      split_ifs <;> rfl
  · exact (h.tracks j).frame rfl (hothers j hj) rfl
  · exact h.owned k (by rwa [List.length_set] at hk)

/-- The entry of a channel that is not registered is made, and that of a registered one is
updated. -/
theorem updateChannel (h : PollInv channel p) (i : ι) {c : Channel} (hc : c.fd = (channel i).fd)
    (hmask : c.events ∈ Channel.masks) (hadded : c.addedToLoop = true) :
    ∃ p', p.updateChannel i c = .ok p' ∧ PollInv (Function.update channel i c) p' ∧
      p'.entry i = some (match p.entry i with
        | none => ⟨c.fd, c.events.setWidth 16, 0⟩
        | some pfd => PollPoller.updatePollfd c pfd) ∧
      ∀ j, j ≠ i → p'.entry j = p.entry j := by
  cases h.tracks i with
  | new _ hindex hout =>
    rw [← hc] at hout
    rw [PollPoller.entry_of_neg hindex]
    refine ⟨_, ?_, h.append hc hmask hadded hindex rfl⟩
    simp [PollPoller.updateChannel, PollPoller.setIndex, hindex, hout]
  | added _ hindex hchannels pfd hentry hfd _ =>
    rw [← hc] at hchannels hfd
    rw [hentry]
    refine ⟨_, ?_, h.set hc hmask hadded hindex hchannels hfd rfl⟩
    rw [PollPoller.entry_of_nonneg hindex] at hentry
    simp [PollPoller.updateChannel, not_lt.mpr hindex, mem_of_lookup hchannels, hchannels,
      hentry, hfd]

end PollInv

/-! ## Agreement -/

namespace PollerPair

variable {s : PollerPair ι}

/-- Each poller keeps its own invariant. -/
structure Inv (s : PollerPair ι) : Prop where
  epoll : EPollInv ⟨s.channel, s.epoll⟩
  poll : PollInv s.channel s.poll

/-- No channel with interest has a negated entry. -/
def NoneNegated (s : PollerPair ι) : Prop :=
  ∀ i, (s.channel i).events ≠ 0 → ∀ pfd ∈ s.poll.entry i, 0 ≤ pfd.fd

theorem Inv.watched_eq_interest (h : s.Inv) : s.watched = s.interest := by
  ext ⟨fd, mask⟩
  constructor
  · rintro ⟨i, hadded, hevents, heq⟩
    obtain ⟨rfl, rfl⟩ := Prod.mk.inj heq
    have hm := h.epoll.mirrors i
    generalize he : s.epoll.entry i (s.channel i).fd = e at hm
    obtain ⟨-, -, hkernel⟩ := EPollPoller.entry_eq_iff.mp he
    cases hm with
    | new hnew => exact absurd (hadded.symm.trans hnew) (by decide)
    | added => exact ⟨i, hevents, hkernel⟩
    | deleted _ hnone => exact absurd (beq_iff_eq.mp hnone) hevents
  · rintro ⟨i, hmask, hlookup⟩
    obtain rfl := h.epoll.owned fd mask i hlookup
    have hm := h.epoll.mirrors i
    generalize he : s.epoll.entry i (s.channel i).fd = e at hm
    obtain ⟨-, -, hkernel⟩ := EPollPoller.entry_eq_iff.mp he
    rw [hlookup] at hkernel
    cases hm with
    | new => cases hkernel
    | added hadded =>
      obtain ⟨rfl, -⟩ := Prod.mk.inj (Option.some.inj hkernel)
      exact ⟨i, hadded, hmask, rfl⟩
    | deleted => cases hkernel

/-- An entry that is not negated passes the descriptor and the mask of its channel. -/
theorem Inv.entry_eq (h : s.Inv) {i : ι} {pfd : Pollfd} (hpfd : s.poll.entry i = some pfd) :
    (s.channel i).addedToLoop = true ∧ (0 ≤ pfd.fd → pfd.fd = (s.channel i).fd) ∧
      pfd.events.signExtend 32 = (s.channel i).events ∧
      (pfd.events ≠ 0 ↔ (s.channel i).events ≠ 0) := by
  cases h.poll.tracks i with
  | new _ hindex _ =>
    rw [PollPoller.entry_of_neg hindex] at hpfd
    cases hpfd
  | added hadded _ _ pfd' hentry hfd hevents =>
    obtain rfl := Option.some.inj (hpfd.symm.trans hentry)
    have hnonneg := h.poll.nonneg i
    have hextend := Channel.signExtend_setWidth (h.poll.masks i)
    rw [← hevents] at hextend
    refine ⟨hadded, fun h0 => by omega, hextend, not_congr ⟨fun hzero => ?_, fun hzero => ?_⟩⟩
    · rw [← hextend, hzero]
      decide
    · rw [hevents, hzero]
      decide

theorem Inv.mem_live_iff (h : s.Inv) {x : ℤ × BitVec 32} :
    x ∈ s.live ↔ ∃ i, (s.channel i).events ≠ 0 ∧ (∃ pfd ∈ s.poll.entry i, 0 ≤ pfd.fd) ∧
      x = ((s.channel i).fd, (s.channel i).events) := by
  constructor
  · rintro ⟨pfd, hmem, hfd, hevents, rfl⟩
    obtain ⟨k, hk, hget⟩ := List.getElem_of_mem hmem
    obtain ⟨i, hi⟩ := h.poll.owned k hk
    have hentry : s.poll.entry i = some pfd := by
      rw [PollPoller.entry_of_nonneg (by omega), hi, Int.toNat_natCast,
        List.getElem?_eq_getElem hk, hget]
    obtain ⟨-, hfdi, heventsi, hiff⟩ := h.entry_eq hentry
    exact ⟨i, hiff.mp hevents, ⟨pfd, hentry, hfd⟩, by rw [hfdi hfd, heventsi]⟩
  · rintro ⟨i, hevents, ⟨pfd, hentry, hfd⟩, rfl⟩
    obtain ⟨-, hfdi, heventsi, hiff⟩ := h.entry_eq hentry
    exact ⟨pfd, PollPoller.mem_of_entry hentry, hfd, hiff.mpr hevents, by rw [hfdi hfd, heventsi]⟩

theorem Inv.agree_iff (h : s.Inv) : s.Agree ↔ s.NoneNegated := by
  rw [Agree, and_iff_left h.watched_eq_interest]
  constructor
  · intro heq i hevents pfd hentry
    obtain ⟨hadded, -⟩ := h.entry_eq hentry
    have hmem : ((s.channel i).fd, (s.channel i).events) ∈ s.live := by
      rw [heq]
      exact ⟨i, hadded, hevents, rfl⟩
    obtain ⟨j, -, ⟨pfd', hentry', hfd⟩, hx⟩ := h.mem_live_iff.mp hmem
    obtain rfl : i = j := h.poll.distinct (Prod.mk.inj hx).1
    rwa [Option.mem_unique hentry hentry']
  · intro hnone
    ext x
    rw [h.mem_live_iff]
    constructor
    · rintro ⟨i, hevents, ⟨pfd, hentry, -⟩, rfl⟩
      exact ⟨i, (h.entry_eq hentry).1, hevents, rfl⟩
    · rintro ⟨i, hadded, hevents, rfl⟩
      cases h.poll.tracks i with
      | new hnew => exact absurd (hadded.symm.trans hnew) (by decide)
      | added _ _ _ pfd hentry _ _ =>
        exact ⟨i, hevents, ⟨pfd, hentry, hnone i hevents pfd hentry⟩, rfl⟩

variable [DecidableEq ι]

/-- A call succeeds, and keeps that no channel with interest has a negated entry exactly when it
does not switch on a channel that has one. -/
theorem Inv.step (h : s.Inv) (l : ι × InterestOp) :
    ∃ u, (pollerPair ι).exec s l = .ok u ∧ u.Inv ∧
      (s.NoneNegated → (u.NoneNegated ↔ NotSwitchedOnAgain s l)) := by
  obtain ⟨i, op⟩ := l
  obtain ⟨epoll, hepoll, hinv⟩ := h.epoll.interest i op
  obtain ⟨poll, hpoll, hinv', hentry, hothers⟩ := h.poll.updateChannel i
    (Channel.call_fd _ op) (Channel.call_mem_masks (h.poll.masks i) op)
    (Channel.call_addedToLoop _ op)
  simp only at hepoll
  refine ⟨⟨Function.update s.channel i ((s.channel i).call op), epoll, poll⟩, ?_, ⟨hinv, hinv'⟩,
    fun hnone => ⟨fun hu hevents pfd hpfd => ?_, fun hP j hevents pfd hpfd => ?_⟩⟩
  · simp [pollerPair, hepoll, hpoll]
  · rw [Option.mem_def.mp hpfd] at hentry
    have hu' := hu i (by simpa using hevents) _ hentry
    rwa [PollPoller.updatePollfd_fd hevents] at hu'
  · rcases eq_or_ne j i with rfl | hj
    · simp only [Function.update_self] at hevents
      cases hold : s.poll.entry j with
      | none =>
        rw [hold] at hentry
        rw [Option.mem_unique hpfd hentry, Channel.call_fd]
        exact h.poll.nonneg j
      | some pfd' =>
        rw [hold] at hentry
        rw [Option.mem_unique hpfd hentry, PollPoller.updatePollfd_fd hevents]
        exact hP hevents pfd' hold
    · simp only [Function.update_of_ne hj] at hevents
      exact hnone j hevents pfd ((hothers j hj).symm.trans hpfd)

end PollerPair

/-- On channels with distinct descriptors no call fails, and the live entries of `PollPoller`,
the registered channels with interest and the interest set of `EPollPoller` are the same all
along a run if and only if no call of the run switches on a channel whose entry is negated. -/
theorem pollers_agree_iff [DecidableEq ι] {fd : ι → ℤ} (hfd : Function.Injective fd)
    (hnonneg : ∀ i, 0 ≤ fd i) {ls : List (ι × InterestOp)} {t : PollerPair ι}
    (hrun : (pollerPair ι).Run (.new fd) ls t) :
    (∀ l, ∃ u, (pollerPair ι).exec t l = .ok u) ∧
    ((∀ pre post u, ls = pre ++ post → (pollerPair ι).Run (.new fd) pre u → u.Agree) ↔
      ((pollerPair ι).restrict NotSwitchedOnAgain).Run (.new fd) ls t) := by
  have hnew : (PollerPair.new fd).Inv := ⟨.new hfd, .new hfd hnonneg⟩
  have hstep : ∀ ⦃t l u⦄, PollerPair.Inv t → (pollerPair ι).enabled t l →
      (pollerPair ι).exec t l = .ok u → u.Inv := by
    intro t l u ht _ hx
    obtain ⟨v, hv, hinv, -⟩ := ht.step l
    obtain rfl := Except.ok.inj (hx.symm.trans hv)
    exact hinv
  refine ⟨fun l => ?_, hrun.restrict_iff hnew ?_ hstep fun t l u ht hgood _ hx => ?_⟩
  · obtain ⟨u, hu, -⟩ := (hrun.invariant hnew hstep).step l
    exact ⟨u, hu⟩
  · exact hnew.agree_iff.mpr fun i hi => absurd rfl hi
  · obtain ⟨v, hv, hinv, hiff⟩ := ht.step l
    obtain rfl := Except.ok.inj (hx.symm.trans hv)
    rw [hinv.agree_iff]
    exact hiff (ht.agree_iff.mp hgood)

/-- Two channels are switched on, and one of them is switched off. -/
theorem pollers_agree_two_channels : ∃ t,
    (pollerPair Bool).Run (.new fun i => if i then 5 else 7)
      [(true, .enableReading), (false, .enableWriting), (false, .enableReading),
        (true, .disableAll)] t ∧
    t.Agree ∧ (7, 7#32) ∈ t.live := by
  have hrun : ((pollerPair Bool).restrict NotSwitchedOnAgain).Run
      (.new fun i => if i then 5 else 7)
      [(true, .enableReading), (false, .enableWriting), (false, .enableReading),
        (true, .disableAll)] _ := .of_play rfl
  obtain ⟨-, hiff⟩ := pollers_agree_iff (by decide) (by decide) hrun.of_restrict
  have hagree := hiff.mpr hrun _ [] _ (List.append_nil _).symm hrun.of_restrict
  refine ⟨_, hrun.of_restrict, hagree, ?_⟩
  rw [hagree.1]
  exact ⟨false, rfl, by decide, rfl⟩

/-- A channel that is switched on, off and on again. `PollPoller` has one entry, with the
descriptor `-6`, while the channel and `EPollPoller` have the read events of descriptor 5. -/
theorem pollers_disagree : ∃ t,
    (pollerPair Unit).Run (.new fun _ => 5)
      [((), .enableReading), ((), .disableAll), ((), .enableReading)] t ∧
    t.poll.pollfds = [⟨-6, 3#16, 0⟩] ∧ (5, 3#32) ∉ t.live ∧ (5, 3#32) ∈ t.watched ∧
    (5, 3#32) ∈ t.interest := by
  have hrun : (pollerPair Unit).Run (.new fun _ => 5)
      [((), .enableReading), ((), .disableAll), ((), .enableReading)] _ := .of_play rfl
  refine ⟨_, hrun, rfl, ?_, ⟨(), rfl, by decide, rfl⟩, ⟨(), by decide, rfl⟩⟩
  rintro ⟨pfd, hmem, hfd, -⟩
  obtain rfl := List.mem_singleton.mp hmem
  exact absurd hfd (by decide)

end Tmuduo
