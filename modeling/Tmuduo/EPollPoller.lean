import Mathlib.Logic.Function.Basic
import Tmuduo.Channel
import Tmuduo.Lookup

/-!
# The epoll poller

`EPollPoller ι` is `tmuduo::net::EPollPoller` for the channels of `ι`, together with the
interest set that the kernel keeps for it. `index` is `Channel::index_`, which belongs to the
poller. A channel is passed as its identity and its members. `epoll_ctl` refuses to add a
descriptor that is there and to change one that is not.

`EPollInv` says for each channel in which of three ways the index, the map and the interest set
agree (`Mirrors`). One call changes them for its own channel only (`Frame`), since descriptors
are distinct. `epoll_mirrors_kernel` is the statement for every run.
-/

set_option autoImplicit false

namespace Tmuduo

/-- The calls on a channel that change its interest. -/
inductive InterestOp
  | enableReading
  | disableReading
  | enableWriting
  | disableWriting
  | disableAll
  deriving DecidableEq, Repr

def Channel.call (c : Channel) : InterestOp → Channel
  | .enableReading => c.enableReading
  | .disableReading => c.disableReading
  | .enableWriting => c.enableWriting
  | .disableWriting => c.disableWriting
  | .disableAll => c.disableAll

@[simp] theorem Channel.call_fd (c : Channel) (op : InterestOp) : (c.call op).fd = c.fd := by
  cases op <;> rfl

@[simp] theorem Channel.call_addedToLoop (c : Channel) (op : InterestOp) :
    (c.call op).addedToLoop = true := by
  cases op <;> rfl

/-! ## The kernel -/

/-- The operations of `epoll_ctl`. -/
inductive EpollOp
  | EPOLL_CTL_ADD
  | EPOLL_CTL_MOD
  | EPOLL_CTL_DEL
  deriving DecidableEq, Repr

/-- The interest set of an epoll instance : for a descriptor the mask and the `data.ptr` that
it was registered with. -/
abbrev InterestSet (ι : Type) := Finmap fun _ : ℤ => BitVec 32 × ι

/-- `::epoll_ctl`. `none` : the call fails. -/
def epollCtl {ι : Type} (kernel : InterestSet ι) (op : EpollOp) (fd : ℤ)
    (event : BitVec 32 × ι) : Option (InterestSet ι) :=
  match op with
  | .EPOLL_CTL_ADD => if fd ∈ kernel then none else some (kernel.insert fd event)
  | .EPOLL_CTL_MOD => if fd ∈ kernel then some (kernel.insert fd event) else none
  | .EPOLL_CTL_DEL => if fd ∈ kernel then some (kernel.erase fd) else none

/-! ## The poller -/

/-- How a poller goes wrong : an assertion of `Channel::remove` or of the poller, a call of
`epoll_ctl` that fails, or a null channel in the map (`removeMoved`). -/
inductive PollerFault
  | channelRemove
  | updateNew
  | updateFound
  | updateSame
  | updateIndex
  | updatePollfd
  | removeFound
  | removeSame
  | removeNoneEvent
  | removeIndex
  | removePollfd
  | removeErase
  | removeMoved
  | fillSize
  | fillFound
  | fillSame
  | epollCtl (op : EpollOp)
  deriving DecidableEq, Repr

/-- `tmuduo::net::EPollPoller`. `eventListSize` is `events_.size()`. -/
structure EPollPoller (ι : Type) where
  index : ι → ℤ
  channels : Finmap fun _ : ℤ => ι
  kernel : InterestSet ι
  eventListSize : ℕ

namespace EPollPoller

def kNew : ℤ := -1

def kAdded : ℤ := 1

def kDeleted : ℤ := 2

def kInitEventListSize : ℕ := 16

variable {ι : Type}

/-- `EPollPoller::EPollPoller`. -/
def new : EPollPoller ι := ⟨fun _ => kNew, ∅, ∅, kInitEventListSize⟩

variable [DecidableEq ι] (p : EPollPoller ι)

/-- `channel->setIndex(index)`. -/
def setIndex (i : ι) (index : ℤ) : EPollPoller ι :=
  { p with index := Function.update p.index i index }

/-- `EPollPoller::update`. The source aborts when an addition or a change fails, and logs when a
deletion fails. -/
def update (op : EpollOp) (i : ι) (c : Channel) : Except PollerFault (EPollPoller ι) :=
  match Tmuduo.epollCtl p.kernel op c.fd (c.events, i) with
  | some kernel => .ok { p with kernel := kernel }
  | none => .error (.epollCtl op)

def updateChannel (i : ι) (c : Channel) : Except PollerFault (EPollPoller ι) :=
  if p.index i = kNew ∨ p.index i = kDeleted then do
    let p' ← if p.index i = kNew then do
        check (c.fd ∉ p.channels) .updateNew
        pure { p with channels := p.channels.insert c.fd i }
      else do
        check (c.fd ∈ p.channels) .updateFound
        check (p.channels.lookup c.fd = some i) .updateSame
        pure p
    (p'.setIndex i kAdded).update .EPOLL_CTL_ADD i c
  else do
    check (c.fd ∈ p.channels) .updateFound
    check (p.channels.lookup c.fd = some i) .updateSame
    check (p.index i = kAdded) .updateIndex
    if c.isNoneEvent then do
      let p' ← p.update .EPOLL_CTL_DEL i c
      return p'.setIndex i kDeleted
    else p.update .EPOLL_CTL_MOD i c

def removeChannel (i : ι) (c : Channel) : Except PollerFault (EPollPoller ι) := do
  check (c.fd ∈ p.channels) .removeFound
  check (p.channels.lookup c.fd = some i) .removeSame
  check (c.isNoneEvent = true) .removeNoneEvent
  check (p.index i = kAdded ∨ p.index i = kDeleted) .removeIndex
  let n := if c.fd ∈ p.channels then 1 else 0
  check (n = 1) .removeErase
  let p' := { p with channels := p.channels.erase c.fd }
  let p'' ← if p.index i = kAdded then p'.update .EPOLL_CTL_DEL i c else pure p'
  return p''.setIndex i kNew

/-- `fillActiveChannels`, of the channels and events that `epoll_wait` wrote to `events_`. -/
def fillActiveChannels (channel : ι → Channel) :
    List (ι × BitVec 32) → Except PollerFault (List (ι × BitVec 32))
  | [] => return []
  | (i, revents) :: events => do
    check ((channel i).fd ∈ p.channels) .fillFound
    check (p.channels.lookup (channel i).fd = some i) .fillSame
    let activeChannels ← fillActiveChannels channel events
    return (i, revents) :: activeChannels

/-- `EPollPoller::poll`, when `epoll_wait` returns `events`. -/
def poll (channel : ι → Channel) (events : List (ι × BitVec 32)) :
    Except PollerFault (EPollPoller ι × List (ι × BitVec 32)) :=
  if events = [] then .ok (p, [])
  else do
    check (events.length ≤ p.eventListSize) .fillSize
    let activeChannels ← p.fillActiveChannels channel events
    if events.length = p.eventListSize then
      return ({ p with eventListSize := p.eventListSize * 2 }, activeChannels)
    else return (p, activeChannels)

end EPollPoller

/-- A call on the channel `i`. -/
inductive PollerCall (ι : Type)
  | interest (i : ι) (op : InterestOp)
  | remove (i : ι)
  deriving DecidableEq, Repr

/-- The channels of a loop, and its poller. -/
structure EPollSystem (ι : Type) where
  channel : ι → Channel
  poller : EPollPoller ι

variable {ι : Type}

/-- Channels that have just been constructed, and a new poller. -/
def EPollSystem.new (fd : ι → ℤ) : EPollSystem ι :=
  ⟨fun i => .new (fd i), .new⟩

/-- The calls on any number of channels. A channel is removed while it is registered and without
interest. -/
def epollMachine (ι : Type) [DecidableEq ι] :
    Machine (EPollSystem ι) (PollerCall ι) PollerFault where
  enabled s
    | .interest _ _ => True
    | .remove i => (s.channel i).addedToLoop = true ∧ (s.channel i).isNoneEvent = true
  exec s
    | .interest i op => do
        let c := (s.channel i).call op
        let poller ← s.poller.updateChannel i c
        return ⟨Function.update s.channel i c, poller⟩
    | .remove i => do
        let c ← (s.channel i).remove.mapError fun _ => .channelRemove
        let poller ← s.poller.removeChannel i c
        return ⟨Function.update s.channel i c, poller⟩

instance [DecidableEq ι] (s : EPollSystem ι) :
    ∀ l, Decidable ((epollMachine ι).enabled s l)
  | .interest _ _ => isTrue trivial
  | .remove i => inferInstanceAs (Decidable ((s.channel i).addedToLoop = true ∧
      (s.channel i).isNoneEvent = true))

/-! ## The invariant -/

namespace EPollPoller

/-- What the poller and the kernel hold for one channel. -/
def entry (p : EPollPoller ι) (i : ι) (fd : ℤ) : ℤ × Option ι × Option (BitVec 32 × ι) :=
  (p.index i, p.channels.lookup fd, p.kernel.lookup fd)

/-- The three ways in which the index, the map and the interest set agree on the channel `i`
with members `c`. -/
inductive Mirrors (i : ι) (c : Channel) : ℤ × Option ι × Option (BitVec 32 × ι) → Prop
  | new (h : c.addedToLoop = false) : Mirrors i c (kNew, none, none)
  | added (h : c.addedToLoop = true) : Mirrors i c (kAdded, some i, some (c.events, i))
  | deleted (h : c.addedToLoop = true) (hnone : c.isNoneEvent = true) :
      Mirrors i c (kDeleted, some i, none)

/-- `p'` differs from `p` only in what it holds for the channel `i` and the descriptor `fd`. -/
structure Frame (i : ι) (fd : ℤ) (p p' : EPollPoller ι) : Prop where
  index : ∀ j, j ≠ i → p'.index j = p.index j
  channels : ∀ x, x ≠ fd → p'.channels.lookup x = p.channels.lookup x
  kernel : ∀ x, x ≠ fd → p'.kernel.lookup x = p.kernel.lookup x

theorem Frame.entry_eq {i j : ι} {fd x : ℤ} {p p' : EPollPoller ι} (h : Frame i fd p p')
    (hj : j ≠ i) (hx : x ≠ fd) : p'.entry j x = p.entry j x := by
  rw [entry, entry, h.index j hj, h.channels x hx, h.kernel x hx]

variable {p : EPollPoller ι} {i : ι} {c : Channel}

/-- What `p` holds, in the three parts of `entry`. -/
theorem entry_eq_iff {fd : ℤ} {e : ℤ × Option ι × Option (BitVec 32 × ι)} :
    p.entry i fd = e ↔
      p.index i = e.1 ∧ p.channels.lookup fd = e.2.1 ∧ p.kernel.lookup fd = e.2.2 := by
  obtain ⟨a, b, d⟩ := e
  simp [entry]

theorem update_add (h : p.kernel.lookup c.fd = none) :
    p.update .EPOLL_CTL_ADD i c =
      .ok { p with kernel := p.kernel.insert c.fd (c.events, i) } := by
  simp [update, epollCtl, Finmap.lookup_eq_none.mp h]

theorem update_mod {e : BitVec 32 × ι} (h : p.kernel.lookup c.fd = some e) :
    p.update .EPOLL_CTL_MOD i c =
      .ok { p with kernel := p.kernel.insert c.fd (c.events, i) } := by
  simp [update, epollCtl, mem_of_lookup h]

theorem update_del {e : BitVec 32 × ι} (h : p.kernel.lookup c.fd = some e) :
    p.update .EPOLL_CTL_DEL i c = .ok { p with kernel := p.kernel.erase c.fd } := by
  simp [update, epollCtl, mem_of_lookup h]

variable [DecidableEq ι]

/-- An update of a channel that is mirrored succeeds, mirrors the channel's new mask, and leaves
every other channel alone. -/
theorem Mirrors.updateChannel {c₀ : Channel} (h : Mirrors i c₀ (p.entry i c.fd))
    (hadded : c.addedToLoop = true) :
    ∃ p', p.updateChannel i c = .ok p' ∧ Mirrors i c (p'.entry i c.fd) ∧ Frame i c.fd p p' := by
  generalize he : p.entry i c.fd = e at h
  obtain ⟨hindex, hchannels, hkernel⟩ := entry_eq_iff.mp he
  cases h with
  | new _ =>
    have hout : c.fd ∉ p.channels := Finmap.lookup_eq_none.mp hchannels
    refine ⟨{ p with
        index := Function.update p.index i kAdded
        channels := p.channels.insert c.fd i
        kernel := p.kernel.insert c.fd (c.events, i) },
      by simp [EPollPoller.updateChannel, hindex, hout, setIndex, update_add, hkernel], ?_, ?_⟩
    · simpa [entry] using Mirrors.added hadded
    · exact ⟨fun j hj => by simp [hj], fun x hx => by simp [hx],
        fun x hx => by simp [hx]⟩
  | added _ =>
    have hin : c.fd ∈ p.channels := mem_of_lookup hchannels
    cases hnone : c.isNoneEvent with
    | true =>
      refine ⟨{ p with
          index := Function.update p.index i kDeleted
          kernel := p.kernel.erase c.fd },
        by simp [EPollPoller.updateChannel, hindex, hin, hchannels, hnone, setIndex, kNew, kAdded,
          kDeleted, update_del hkernel], ?_, ?_⟩
      · simpa [entry, hchannels] using Mirrors.deleted hadded hnone
      · exact ⟨fun j hj => by simp [hj], fun x hx => rfl,
          fun x hx => by simp [hx]⟩
    | false =>
      refine ⟨{ p with kernel := p.kernel.insert c.fd (c.events, i) },
        by simp [EPollPoller.updateChannel, hindex, hin, hchannels, hnone, kNew, kAdded,
          kDeleted, update_mod hkernel], ?_, ?_⟩
      · simpa [entry, hchannels, hindex] using Mirrors.added hadded
      · exact ⟨fun j hj => rfl, fun x hx => rfl, fun x hx => by simp [hx]⟩
  | deleted _ _ =>
    have hin : c.fd ∈ p.channels := mem_of_lookup hchannels
    refine ⟨{ p with
        index := Function.update p.index i kAdded
        kernel := p.kernel.insert c.fd (c.events, i) },
      by simp [EPollPoller.updateChannel, hindex, hin, hchannels, setIndex, kNew, kDeleted,
        update_add, hkernel], ?_, ?_⟩
    · simpa [entry, hchannels] using Mirrors.added hadded
    · exact ⟨fun j hj => by simp [hj], fun x hx => rfl,
        fun x hx => by simp [hx]⟩

/-- Removing a registered channel without interest succeeds, and the poller and the kernel hold
nothing for it any more. -/
theorem Mirrors.removeChannel {d : Channel} (h : Mirrors i c (p.entry i c.fd))
    (hadded : c.addedToLoop = true) (hnone : c.isNoneEvent = true) (hfd : d.fd = c.fd)
    (hevents : d.events = c.events) (hremoved : d.addedToLoop = false) :
    ∃ p', p.removeChannel i d = .ok p' ∧ Mirrors i d (p'.entry i c.fd) ∧
      Frame i c.fd p p' := by
  have hnone' : d.isNoneEvent = true := by
    rwa [Channel.isNoneEvent, hevents]
  generalize he : p.entry i c.fd = e at h
  obtain ⟨hindex, hchannels, hkernel⟩ := entry_eq_iff.mp he
  rw [← hfd] at hchannels hkernel
  cases h with
  | new hnew =>
    rw [hadded] at hnew
    cases hnew
  | added _ =>
    refine ⟨{ p with
        index := Function.update p.index i kNew
        channels := p.channels.erase d.fd
        kernel := p.kernel.erase d.fd }, ?_, ?_, ?_⟩
    · have hdel : ({ p with channels := p.channels.erase d.fd }).update .EPOLL_CTL_DEL i d =
          .ok { p with channels := p.channels.erase d.fd, kernel := p.kernel.erase d.fd } :=
        update_del hkernel
      simp [EPollPoller.removeChannel, hindex, mem_of_lookup hchannels, hchannels, hnone', hdel,
        setIndex]
    · simpa [entry, hfd] using Mirrors.new hremoved
    · exact ⟨fun j hj => by simp [hj], fun x hx => by simp [hfd, hx],
        fun x hx => by simp [hfd, hx]⟩
  | deleted _ _ =>
    refine ⟨{ p with
        index := Function.update p.index i kNew
        channels := p.channels.erase d.fd },
      by simp [EPollPoller.removeChannel, hindex, mem_of_lookup hchannels, hchannels, hnone',
        setIndex, kAdded, kDeleted], ?_, ?_⟩
    · rw [hfd] at hkernel
      simpa [entry, hfd, hkernel] using Mirrors.new hremoved
    · exact ⟨fun j hj => by simp [hj], fun x hx => by simp [hfd, hx],
        fun x hx => rfl⟩

end EPollPoller

/-- What the channels, the poller and the kernel keep : distinct descriptors, each channel is
mirrored, and the kernel holds nothing but channels under their own descriptors. -/
structure EPollInv (s : EPollSystem ι) : Prop where
  distinct : Function.Injective fun i => (s.channel i).fd
  mirrors : ∀ i, EPollPoller.Mirrors i (s.channel i) (s.poller.entry i (s.channel i).fd)
  owned : ∀ fd mask i, s.poller.kernel.lookup fd = some (mask, i) → (s.channel i).fd = fd

namespace EPollInv

theorem new {fd : ι → ℤ} (hfd : Function.Injective fd) : EPollInv (.new fd) where
  distinct := hfd
  mirrors _ := .new rfl
  owned _ _ _ h := by simp [EPollSystem.new, EPollPoller.new] at h

variable {s : EPollSystem ι}

/-- The index of a channel says what the map and the interest set hold for it. -/
theorem index_iff (h : EPollInv s) (i : ι) :
    (s.poller.index i = EPollPoller.kNew ↔ (s.channel i).fd ∉ s.poller.channels) ∧
    (s.poller.index i = EPollPoller.kAdded ↔ (s.channel i).fd ∈ s.poller.channels ∧
      (s.poller.kernel.lookup (s.channel i).fd).map Prod.fst = some (s.channel i).events) ∧
    (s.poller.index i = EPollPoller.kDeleted ↔ (s.channel i).fd ∈ s.poller.channels ∧
      (s.channel i).fd ∉ s.poller.kernel) := by
  have hm := h.mirrors i
  generalize he : s.poller.entry i (s.channel i).fd = e at hm
  obtain ⟨hindex, hchannels, hkernel⟩ := EPollPoller.entry_eq_iff.mp he
  cases hm with
  | new =>
    have hout := Finmap.lookup_eq_none.mp hchannels
    simp [hindex, hout, EPollPoller.kNew, EPollPoller.kAdded, EPollPoller.kDeleted]
  | added =>
    have hin := mem_of_lookup hchannels
    simp [hindex, hin, hkernel, mem_of_lookup hkernel, EPollPoller.kNew, EPollPoller.kAdded,
      EPollPoller.kDeleted]
  | deleted =>
    have hin := mem_of_lookup hchannels
    have hout := Finmap.lookup_eq_none.mp hkernel
    simp [hindex, hin, hout, hkernel, EPollPoller.kNew, EPollPoller.kAdded, EPollPoller.kDeleted]

/-- A channel that the kernel holds is in the map. -/
theorem lookup_of_reported (h : EPollInv s) {fd : ℤ} {mask : BitVec 32} {i : ι}
    (hk : s.poller.kernel.lookup fd = some (mask, i)) :
    s.poller.channels.lookup (s.channel i).fd = some i := by
  have hm := h.mirrors i
  rw [← h.owned fd mask i hk] at hk
  generalize he : s.poller.entry i (s.channel i).fd = e at hm
  obtain ⟨-, hchannels, hkernel⟩ := EPollPoller.entry_eq_iff.mp he
  cases hm with
  | added => exact hchannels
  | _ =>
    rw [hk] at hkernel
    cases hkernel

variable [DecidableEq ι]

/-- A call that is right for its own channel and changes nothing for the others. -/
theorem of_frame (h : EPollInv s) {i : ι} {c : Channel} {p : EPollPoller ι}
    (hfd : c.fd = (s.channel i).fd)
    (hm : EPollPoller.Mirrors i c (p.entry i (s.channel i).fd))
    (hf : EPollPoller.Frame i (s.channel i).fd s.poller p) :
    EPollInv ⟨Function.update s.channel i c, p⟩ := by
  have hfds : ∀ j, (Function.update s.channel i c j).fd = (s.channel j).fd := by
    intro j
    rcases eq_or_ne j i with rfl | hj
    · rw [Function.update_self, hfd]
    · rw [Function.update_of_ne hj]
  refine ⟨fun j k hjk => h.distinct ?_, fun j => ?_, fun fd mask j hlookup => ?_⟩
  · simpa only [hfds] using hjk
  · simp only [hfds]
    rcases eq_or_ne j i with rfl | hj
    · rwa [Function.update_self]
    · rw [Function.update_of_ne hj, hf.entry_eq hj fun heq => hj (h.distinct heq)]
      exact h.mirrors j
  · simp only [hfds]
    rcases eq_or_ne fd (s.channel i).fd with rfl | hne
    · have hj : j = i := by
        obtain ⟨-, -, hkernel⟩ := EPollPoller.entry_eq_iff.mp (rfl : p.entry i _ = _)
        generalize p.entry i (s.channel i).fd = e at hm hkernel
        simp only at hlookup
        rw [hlookup] at hkernel
        cases hm with
        | new => cases hkernel
        | added => exact (Prod.mk.inj (Option.some.inj hkernel)).2
        | deleted => cases hkernel
      rw [hj]
    · exact h.owned fd mask j (by rw [← hf.kernel fd hne]; exact hlookup)

theorem interest (h : EPollInv s) (i : ι) (op : InterestOp) :
    ∃ p, s.poller.updateChannel i ((s.channel i).call op) = .ok p ∧
      EPollInv ⟨Function.update s.channel i ((s.channel i).call op), p⟩ := by
  have hm := h.mirrors i
  rw [← Channel.call_fd _ op] at hm
  obtain ⟨p, hp, hmirrors, hframe⟩ := hm.updateChannel (Channel.call_addedToLoop _ op)
  rw [Channel.call_fd] at hmirrors hframe
  exact ⟨p, hp, h.of_frame (Channel.call_fd _ op) hmirrors hframe⟩

theorem remove (h : EPollInv s) {i : ι} (hadded : (s.channel i).addedToLoop = true)
    (hnone : (s.channel i).isNoneEvent = true) :
    ∃ c p, (s.channel i).remove = .ok c ∧ s.poller.removeChannel i c = .ok p ∧
      EPollInv ⟨Function.update s.channel i c, p⟩ := by
  have hremove : (s.channel i).remove = .ok { s.channel i with addedToLoop := false } := by
    simp [Channel.remove, hnone]
  obtain ⟨p, hp, hmirrors, hframe⟩ := (h.mirrors i).removeChannel
    (d := { s.channel i with addedToLoop := false }) hadded hnone rfl rfl rfl
  exact ⟨_, p, hremove, hp, h.of_frame rfl hmirrors hframe⟩

theorem step : (epollMachine ι).Keeps EPollInv := by
  intro s l h he
  cases l with
  | interest i op =>
    obtain ⟨p, hp, hinv⟩ := h.interest i op
    exact ⟨_, by simp [epollMachine, hp], hinv⟩
  | remove i =>
    obtain ⟨c, p, hc, hp, hinv⟩ := h.remove he.1 he.2
    exact ⟨_, by simp [epollMachine, hc, hp, Except.mapError], hinv⟩

theorem fillActiveChannels (h : EPollInv s) :
    ∀ {events : List (ι × BitVec 32)},
      (∀ e ∈ events, ∃ fd mask, s.poller.kernel.lookup fd = some (mask, e.1)) →
      s.poller.fillActiveChannels s.channel events = .ok events
  | [], _ => rfl
  | (i, revents) :: events, hk => by
    obtain ⟨fd, mask, hi⟩ := hk (i, revents) List.mem_cons_self
    have hlookup := h.lookup_of_reported hi
    have hrest := h.fillActiveChannels fun e he => hk e (List.mem_cons_of_mem _ he)
    simp [EPollPoller.fillActiveChannels, hlookup, mem_of_lookup hlookup, hrest]

theorem poll (h : EPollInv s) {events : List (ι × BitVec 32)}
    (hsize : events.length ≤ s.poller.eventListSize)
    (hk : ∀ e ∈ events, ∃ fd mask, s.poller.kernel.lookup fd = some (mask, e.1)) :
    ∃ p, s.poller.poll s.channel events = .ok (p, events) := by
  unfold EPollPoller.poll
  split_ifs with hnil hfull
  · exact ⟨s.poller, by rw [hnil]⟩
  · exact ⟨_, by simp only [check_of _ hsize, h.fillActiveChannels hk, ok_bind]; rfl⟩
  · exact ⟨_, by simp only [check_of _ hsize, h.fillActiveChannels hk, ok_bind]; rfl⟩

end EPollInv

/-- In every run on channels with distinct descriptors, no assertion and no `epoll_ctl` fails.
The index of a channel is `kNew` if and only if it is not in the map, `kAdded` if and only if it
is and the kernel has its mask, `kDeleted` if and only if it is and the kernel does not have it.
Whatever the kernel reports is found in the map. -/
theorem epoll_mirrors_kernel [DecidableEq ι] {fd : ι → ℤ} (hfd : Function.Injective fd)
    {ls : List (PollerCall ι)} {t : EPollSystem ι} (hrun : (epollMachine ι).Run (.new fd) ls t) :
    (∀ l, (epollMachine ι).enabled t l → ∃ u, (epollMachine ι).exec t l = .ok u) ∧
    (∀ i, (t.poller.index i = EPollPoller.kNew ↔ (t.channel i).fd ∉ t.poller.channels) ∧
      (t.poller.index i = EPollPoller.kAdded ↔ (t.channel i).fd ∈ t.poller.channels ∧
        (t.poller.kernel.lookup (t.channel i).fd).map Prod.fst = some (t.channel i).events) ∧
      (t.poller.index i = EPollPoller.kDeleted ↔ (t.channel i).fd ∈ t.poller.channels ∧
        (t.channel i).fd ∉ t.poller.kernel)) ∧
    ∀ events : List (ι × BitVec 32), events.length ≤ t.poller.eventListSize →
      (∀ e ∈ events, ∃ x mask, t.poller.kernel.lookup x = some (mask, e.1)) →
      ∃ p, t.poller.poll t.channel events = .ok (p, events) := by
  have h : EPollInv t := EPollInv.step.run (.new hfd) hrun
  refine ⟨fun l he => ?_, h.index_iff, fun events hsize hk => h.poll hsize hk⟩
  obtain ⟨u, hu, -⟩ := EPollInv.step h he
  exact ⟨u, hu⟩

/-- A channel is switched on and off and removed, and another one is switched on. -/
theorem epoll_mirrors_kernel_two_channels : ∃ t,
    (epollMachine Bool).Run (.new fun i => if i then 5 else 7)
      [.interest true .enableReading, .interest true .disableAll, .interest false .enableWriting,
        .remove true] t ∧
    t.poller.index true = EPollPoller.kNew ∧ (t.channel true).fd ∉ t.poller.channels ∧
    (t.poller.kernel.lookup 7).map Prod.fst = some (t.channel false).events := by
  have hrun : (epollMachine Bool).Run (.new fun i => if i then 5 else 7)
      [.interest true .enableReading, .interest true .disableAll, .interest false .enableWriting,
        .remove true] _ := .of_play rfl
  obtain ⟨-, hindex, -⟩ := epoll_mirrors_kernel (by decide) hrun
  exact ⟨_, hrun, rfl, (hindex true).1.mp rfl, ((hindex false).2.1.mp rfl).2⟩

end Tmuduo
