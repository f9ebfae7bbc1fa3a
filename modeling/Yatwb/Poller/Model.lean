import Yatwb.Foundation.Check
import Yatwb.Poller.Channel
import Std.Data.ExtTreeMap.Lemmas

/-!
# The poller

`Poller` of `poller.h` and `poller.cpp`: the vector handed to `poll(2)` and
the map from descriptors to channels. The poller does not own the channels:
they live in a store, `κ → Channel`, with a channel pointer as its key. Both
functions that register channels read and write that store.

## Implementation notes

A slot of the vector is a `pollfd`, whose event words are `short`, hence
16-bit words: they are truncated when stored and sign-extended when read back
as `int`. `operator[]` of the map, on a missing key, would create a null
pointer, so following it is a fault of its own. The thread check at the start
of both functions belongs to the event loop and is made there.
-/

namespace Yatwb

open Foundation

structure PollFd where
  fd : Int
  events : BitVec 16
  revents : BitVec 16
  deriving DecidableEq, Repr

structure Poller (κ : Type) where
  pollFds : List PollFd
  channelMap : Std.ExtTreeMap Int κ

namespace Poller

/-- The asserts of the two functions and of `fillActiveChannels`, named after
the function and what they test, and the null channel of `operator[]`. -/
inductive Fault
  | updateNewFdAbsent
  | updateFdPresent
  | updateSameChannel
  | updateIndexRange
  | updateSlotFd
  | removeFdPresent
  | removeSameChannel
  | removeNoneEvent
  | removeIndexRange
  | removeSlotFd
  | removeSlotEvents
  | removeErasedOne
  | nullChannel
  | fillFdPresent
  | fillSameFd
  deriving DecidableEq, Repr

variable {κ : Type} [DecidableEq κ]

/-- The constructor leaves both containers empty. -/
def new : Poller κ := ⟨[], ∅⟩

/-- The `fd` of a slot that `poll(2)` has to ignore. -/
def ignoredFd (fd : Int) : Int := -fd - 1

def updateChannel (p : Poller κ) (channels : κ → Channel) (k : κ) :
    Except Fault (Poller κ × (κ → Channel)) :=
  let channel := channels k
  if channel.index < 0 then do
    check (p.channelMap.contains channel.fd = false) .updateNewFdAbsent
    let pfd : PollFd := ⟨channel.fd, channel.events.setWidth 16, 0⟩
    let pollFds := p.pollFds ++ [pfd]
    let channels := Function.update channels k (channel.setIndex (pollFds.length - 1))
    return (⟨pollFds, p.channelMap.insertIfNew pfd.fd k⟩, channels)
  else do
    check (p.channelMap.contains channel.fd) .updateFdPresent
    check (p.channelMap[channel.fd]? = some k) .updateSameChannel
    let idx := channel.index
    match p.pollFds[idx.toNat]? with
    | none => .error .updateIndexRange
    | some pfd =>
        check (pfd.fd = channel.fd ∨ pfd.fd = ignoredFd channel.fd) .updateSlotFd
        let pfd := { pfd with events := channel.events.setWidth 16, revents := 0 }
        let pfd := if channel.isNoneEvent then { pfd with fd := ignoredFd channel.fd } else pfd
        return ({ p with pollFds := p.pollFds.set idx.toNat pfd }, channels)

/-- `iter_swap` of two slots. -/
def iterSwap (pollFds : List PollFd) (i j : Nat) : List PollFd :=
  match pollFds[i]?, pollFds[j]? with
  | some x, some y => (pollFds.set i y).set j x
  | _, _ => pollFds

def removeChannel (p : Poller κ) (channels : κ → Channel) (k : κ) :
    Except Fault (Poller κ × (κ → Channel)) := do
  let channel := channels k
  check (p.channelMap.contains channel.fd) .removeFdPresent
  check (p.channelMap[channel.fd]? = some k) .removeSameChannel
  check (channel.isNoneEvent) .removeNoneEvent
  let idx := channel.index
  check (0 ≤ idx ∧ idx < p.pollFds.length) .removeIndexRange
  match p.pollFds[idx.toNat]?, p.pollFds.getLast? with
  | some pfd, some back =>
      check (pfd.fd = ignoredFd channel.fd ∨ pfd.fd = channel.fd) .removeSlotFd
      check (pfd.events.signExtend 32 = channel.events) .removeSlotEvents
      check (p.channelMap.contains channel.fd) .removeErasedOne
      let channelMap := p.channelMap.erase channel.fd
      if idx.toNat = p.pollFds.length - 1 then
        return (⟨p.pollFds.dropLast, channelMap⟩, channels)
      else
        let channelFdAtEnd := if back.fd < 0 then -back.fd - 1 else back.fd
        let swapped := iterSwap p.pollFds idx.toNat (p.pollFds.length - 1)
        match channelMap[channelFdAtEnd]? with
        | none => .error .nullChannel
        | some moved =>
            return (⟨swapped.dropLast, channelMap⟩,
              Function.update channels moved ((channels moved).setIndex idx))
  | _, _ => .error .removeIndexRange

/-- The loop of `fillActiveChannels` over the remaining slots, with the
remaining number of events. -/
def fillActiveChannels (p : Poller κ) :
    List PollFd → Int → (κ → Channel) → List κ → Except Fault ((κ → Channel) × List κ)
  | [], _, channels, active => return (channels, active)
  | pfd :: rest, numEvents, channels, active =>
      if 0 < numEvents then
        if 0 < pfd.revents.toInt then
          match p.channelMap[pfd.fd]? with
          | none => .error .fillFdPresent
          | some k => do
              check ((channels k).fd = pfd.fd) .fillSameFd
              let channels := Function.update channels k
                ((channels k).setRevents (pfd.revents.signExtend 32))
              p.fillActiveChannels rest (numEvents - 1) channels (active ++ [k])
        else p.fillActiveChannels rest numEvents channels active
      else return (channels, active)

/-- What `poll(2)` stores: one word for each slot. -/
def setRevents (p : Poller κ) (reported : List (BitVec 16)) : Poller κ :=
  { p with pollFds := p.pollFds.zipWith (fun pfd r => { pfd with revents := r }) reported }

/-- `Poller::poll` after the system call answered: the words it stored and the
number it returned. -/
def poll (p : Poller κ) (channels : κ → Channel) (reported : List (BitVec 16))
    (numEvents : Int) : Except Fault (Poller κ × (κ → Channel) × List κ) := do
  let p := p.setRevents reported
  if 0 < numEvents then
    let (channels, active) ← p.fillActiveChannels p.pollFds numEvents channels []
    return (p, channels, active)
  else return (p, channels, [])

end Poller

end Yatwb
