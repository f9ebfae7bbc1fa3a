import Yatwb.Server.Model
import Yatwb.Foundation.Machine
import Yatwb.Poller.Polling
import Mathlib.Data.Finset.Image
import Mathlib.Data.Finset.Range

/-!
# Runs of a server

One action is what the thread of a loop does between two points at which it
looks at its own lists again: one channel callback, one functor, or a statement
of `loop`. The other actions are the start of the server, a `send` or a
`shutdown` by a thread without a loop, and the destruction of a connection that
nothing owns any more. The callbacks of the user are part of the action in
which they run. An action that is not possible in a state, or whose thread has
to wait for `mutex_`, leaves the state as it is.
-/

namespace Yatwb

open Foundation

/-- What the kernel and the user answer while a callback or a functor runs. -/
structure Answers where
  connfd : Int
  memory : LoopId
  read : Buffer.ReadResult
  write : WriteResult
  acts : List UserAct
  deriving DecidableEq, Repr

namespace World

/-- The callback of a channel. Those that are not set are skipped. -/
def runCallback (w : World) (tid : ThreadId) (x : Answers) :
    ChannelRef → Channel.Callback → Except Fault World
  | .acceptor, .read => w.acceptorHandleRead tid x.connfd x.memory x.acts
  | .timer l, .read => do
      w.assertInLoopThread l tid
      w.userCallback tid x.acts
  | .wakeup l, .read => .ok (w.setEvent l (w.reactors l).event.handleRead)
  | .conn c, .close => w.handleClose tid c
  | .conn c, .error => do
      let _ ← w.endpoint c
      return w
  | .conn c, .read => w.handleRead tid c x.read x.acts
  | .conn c, .write => w.handleWrite tid c x.write
  | _, _ => .ok w

def runFunctor (w : World) (tid : ThreadId) (x : Answers) : Functor → Except Fault World
  | .listen => w.listen tid
  | .addTimerInLoop => w.addTimerInLoop tid tid
  | .sendInLoop c message => w.sendInLoop tid c message x.write
  | .shutdownInLoop c => w.shutdownInLoop tid c
  | .destroyConnection c => w.destroyConnection tid c x.acts
  | .writeComplete _ => w.userCallback tid x.acts

/-- The channel behind an entry of `active_channels_`. -/
def derefChannel (w : World) : ChannelRef → Except Fault Channel
  | .conn c => do
      let e ← w.endpoint c
      return e.channel
  | ref => .ok (w.channels ref)

/-- The functors that wait for the loop `l`. -/
def waiting (w : World) (l : LoopId) : List Functor :=
  (w.reactors l).event.pendingFunctors ++ (w.reactors l).phase.rest

/-- The server or a functor holds a pointer to the connection. -/
def owned (w : World) (c : Nat) : Bool :=
  (w.server.connections.toList.any fun entry => entry.2 == c) ||
    (0 :: w.server.pool.loops).any fun l => (w.waiting l).any (Functor.owns c)

/-- The last pointer to a connection goes away, and its socket is closed. -/
def destroy (w : World) (c : Nat) : World :=
  match w.conns c with
  | none => w
  | some _ =>
      if w.owned c then w
      else { w.setConn c none with openFds := w.openFds.erase (w.channels (.conn c)).fd }

inductive Action
  | start
  | wire (l : LoopId)
  | enterLoop (l : LoopId)
  | pollReturn (l : LoopId) (reported : List (BitVec 16)) (numEvents : Int)
  | nextChannel (l : LoopId)
  | callback (l : LoopId) (x : Answers)
  | endChannel (l : LoopId)
  | doPendingFunctors (l : LoopId)
  | functor (l : LoopId) (x : Answers)
  | endFunctors (l : LoopId)
  | send (tid : ThreadId) (c : Nat) (message : List Byte)
  | shutdown (tid : ThreadId) (c : Nat)
  | destroy (c : Nat)
  deriving DecidableEq, Repr

/-- The thread of a loop exists. -/
def hasLoop (w : World) (l : LoopId) : Bool := l == 0 || w.server.pool.loops.contains l

/-- The registration of the timer and the wake-up channel of a loop. -/
def wire (w : World) (l : LoopId) : Except Fault World := do
  let w ← w.changeInterest l (.timer l) .enableReading
  w.changeInterest l (.wakeup l) .enableReading

def enterLoop (w : World) (l : LoopId) : Except Fault World := do
  let event ← ((w.reactors l).event.enterLoop l).mapError .loop
  return (w.setEvent l event).setPhase l .polling

def pollReturn (w : World) (l : LoopId) (reported : List (BitVec 16)) (numEvents : Int) :
    Except Fault World := do
  let (poller, channels, active) ←
    ((w.reactors l).poller.poll w.channels reported numEvents).mapError .poller
  return { (w.setPoller l poller).setPhase l (.dispatching active) with channels := channels }

def nextChannel (w : World) (l : LoopId) (ref : ChannelRef) (active : List ChannelRef) :
    Except Fault World := do
  let channel ← w.derefChannel ref
  return w.setPhase l (.handling ref (Channel.handleEvents channel.revents) active)

def doPendingFunctors (w : World) (l : LoopId) : Except Fault World := do
  let (event, functors) ← ((w.reactors l).event.beginFunctors l).mapError .loop
  return (w.setEvent l event).setPhase l (.functors functors)

/-- What the thread of the loop `l` does next. -/
def attempt (w : World) : Action → Except Fault World
  | .start => if (w.reactors 0).phase = .outside then w.start 0 else .ok w
  | .wire l => if w.hasLoop l ∧ (w.reactors l).phase = .outside then w.wire l else .ok w
  | .enterLoop l =>
      if w.hasLoop l ∧ (w.reactors l).phase = .outside then w.enterLoop l else .ok w
  | .pollReturn l reported numEvents =>
      if (w.reactors l).phase = .polling then w.pollReturn l reported numEvents else .ok w
  | .nextChannel l =>
      match (w.reactors l).phase with
      | .dispatching (ref :: active) => w.nextChannel l ref active
      | _ => .ok w
  | .callback l x =>
      match (w.reactors l).phase with
      | .handling ref (cb :: callbacks) active =>
          (w.setPhase l (.handling ref callbacks active)).runCallback l x ref cb
      | _ => .ok w
  | .endChannel l =>
      match (w.reactors l).phase with
      | .handling _ [] active => .ok (w.setPhase l (.dispatching active))
      | _ => .ok w
  | .doPendingFunctors l =>
      match (w.reactors l).phase with
      | .dispatching [] => w.doPendingFunctors l
      | _ => .ok w
  | .functor l x =>
      match (w.reactors l).phase with
      | .functors (f :: rest) => (w.setPhase l (.functors rest)).runFunctor l x f
      | _ => .ok w
  | .endFunctors l =>
      match (w.reactors l).phase with
      | .functors [] =>
          .ok ((w.setEvent l (w.reactors l).event.endFunctors).setPhase l .polling)
      | _ => .ok w
  | .send tid c message => if w.hasLoop tid then .ok w else w.send tid c message .error
  | .shutdown tid c => if w.hasLoop tid then .ok w else w.shutdown tid c
  | .destroy c => .ok (w.destroy c)

/-- What an attempt is: nothing at all, or the function of its action, in the phase and on
the loop it needs. -/
inductive Attempted (w : World) : Action → Except Fault World → Prop
  | stay (a : Action) : Attempted w a (.ok w)
  | start (h : (w.reactors 0).phase = .outside) : Attempted w .start (w.start 0)
  | wire (l : LoopId) (hl : w.hasLoop l) (h : (w.reactors l).phase = .outside) :
      Attempted w (.wire l) (w.wire l)
  | enterLoop (l : LoopId) (hl : w.hasLoop l) (h : (w.reactors l).phase = .outside) :
      Attempted w (.enterLoop l) (w.enterLoop l)
  | pollReturn (l : LoopId) (reported : List (BitVec 16)) (numEvents : Int)
      (h : (w.reactors l).phase = .polling) :
      Attempted w (.pollReturn l reported numEvents) (w.pollReturn l reported numEvents)
  | nextChannel (l : LoopId) (ref : ChannelRef) (active : List ChannelRef)
      (h : (w.reactors l).phase = .dispatching (ref :: active)) :
      Attempted w (.nextChannel l) (w.nextChannel l ref active)
  | callback (l : LoopId) (x : Answers) (ref : ChannelRef) (cb : Channel.Callback)
      (callbacks : List Channel.Callback) (active : List ChannelRef)
      (h : (w.reactors l).phase = .handling ref (cb :: callbacks) active) :
      Attempted w (.callback l x)
        ((w.setPhase l (.handling ref callbacks active)).runCallback l x ref cb)
  | endChannel (l : LoopId) (ref : ChannelRef) (active : List ChannelRef)
      (h : (w.reactors l).phase = .handling ref [] active) :
      Attempted w (.endChannel l) (.ok (w.setPhase l (.dispatching active)))
  | doPendingFunctors (l : LoopId) (h : (w.reactors l).phase = .dispatching []) :
      Attempted w (.doPendingFunctors l) (w.doPendingFunctors l)
  | functor (l : LoopId) (x : Answers) (f : Functor) (rest : List Functor)
      (h : (w.reactors l).phase = .functors (f :: rest)) :
      Attempted w (.functor l x) ((w.setPhase l (.functors rest)).runFunctor l x f)
  | endFunctors (l : LoopId) (h : (w.reactors l).phase = .functors []) :
      Attempted w (.endFunctors l)
        (.ok ((w.setEvent l (w.reactors l).event.endFunctors).setPhase l .polling))
  | send (tid : ThreadId) (c : Nat) (message : List Byte) :
      Attempted w (.send tid c message) (w.send tid c message .error)
  | shutdown (tid : ThreadId) (c : Nat) : Attempted w (.shutdown tid c) (w.shutdown tid c)
  | destroy (c : Nat) : Attempted w (.destroy c) (.ok (w.destroy c))

theorem attempted (w : World) (a : Action) : Attempted w a (w.attempt a) := by
  cases a with
  | start =>
      simp only [attempt]
      split
      · exact .start ‹_›
      · exact .stay _
  | wire l =>
      simp only [attempt]
      split
      · rename_i h
        exact .wire l h.1 h.2
      · exact .stay _
  | enterLoop l =>
      simp only [attempt]
      split
      · rename_i h
        exact .enterLoop l h.1 h.2
      · exact .stay _
  | pollReturn l reported numEvents =>
      simp only [attempt]
      split
      · exact .pollReturn l reported numEvents ‹_›
      · exact .stay _
  | nextChannel l =>
      simp only [attempt]
      split
      · exact .nextChannel l _ _ ‹_›
      · exact .stay _
  | callback l x =>
      simp only [attempt]
      split
      · exact .callback l x _ _ _ _ ‹_›
      · exact .stay _
  | endChannel l =>
      simp only [attempt]
      split
      · exact .endChannel l _ _ ‹_›
      · exact .stay _
  | doPendingFunctors l =>
      simp only [attempt]
      split
      · exact .doPendingFunctors l ‹_›
      · exact .stay _
  | functor l x =>
      simp only [attempt]
      split
      · exact .functor l x _ _ ‹_›
      · exact .stay _
  | endFunctors l =>
      simp only [attempt]
      split
      · exact .endFunctors l ‹_›
      · exact .stay _
  | send tid c message =>
      simp only [attempt]
      split
      · exact .stay _
      · exact .send tid c message
  | shutdown tid c =>
      simp only [attempt]
      split
      · exact .stay _
      · exact .shutdown tid c
  | destroy c => exact .destroy c

/-- A thread that finds `mutex_` held by another thread waits. -/
def step (w : World) (a : Action) : Except Fault World :=
  match w.attempt a with
  | .error (.loop .held) => .ok w
  | outcome => outcome

/-- What the kernel guarantees: `accept(2)` returns an error or a descriptor
that was not open, and `poll(2)` reports as it should. -/
def Kernel (w : World) : Action → Prop
  | .callback _ x => 0 ≤ x.connfd → x.connfd ∉ w.openFds
  | .pollReturn l reported _ =>
      List.Forall₂ Poller.ReportFits (w.reactors l).poller.pollFds reported
  | _ => True

instance (w : World) : ∀ a, Decidable (Kernel w a)
  | .callback _ x => inferInstanceAs (Decidable (0 ≤ x.connfd → x.connfd ∉ w.openFds))
  | .pollReturn l reported _ =>
      inferInstanceAs (Decidable
        (List.Forall₂ Poller.ReportFits (w.reactors l).poller.pollFds reported))
  | .start | .wire _ | .enterLoop _ | .nextChannel _ | .endChannel _ | .doPendingFunctors _
  | .functor _ _ | .endFunctors _ | .send _ _ _ | .shutdown _ _ | .destroy _ => isTrue trivial

/-- The channels that are there from the beginning, with `N` loops in the pool. -/
def Standing (N : Nat) : ChannelRef → Prop
  | .acceptor => True
  | .timer l => l ≤ N
  | .wakeup l => l ≤ N
  | .conn _ => False

/-- The loop a standing channel belongs to. -/
def homeLoop : ChannelRef → LoopId
  | .timer l => l
  | .wakeup l => l
  | _ => 0

/-- A server that has been constructed, with `N` threads for its pool. -/
structure Initial (N : Nat) (w : World) : Prop where
  reactors : ∀ l, ∃ flag counter,
    w.reactors l = ⟨EventLoop.new l flag counter, Poller.new, .outside⟩
  channels : ∀ ref, ∃ fd memory, w.channels ref = Channel.new (homeLoop ref) fd memory
  descriptors : ∀ ref, Standing N ref →
    0 ≤ (w.channels ref).fd ∧ (w.channels ref).fd ∈ w.openFds
  distinct : ∀ ref ref', Standing N ref → Standing N ref' →
    (w.channels ref).fd = (w.channels ref').fd → ref = ref'
  conns : ∀ c, w.conns c = none
  nextObj : w.nextObj = 0
  server : ∃ name writeCmplCb,
    w.server = ⟨name, false, false, writeCmplCb, 1, ∅, ⟨false, N, 0, []⟩⟩
  trace : w.trace = []

def machine (N : Nat) : Machine (Except Fault World) Action := faulting (Initial N) step

/-- The states of runs of a server with `N` pool threads. -/
abbrev Reach (N : Nat) (s : Except Fault World) : Prop :=
  (machine N).Reach (whileRunning Kernel) s

theorem reach_step {N : Nat} {w w' : World} (h : Reach N (.ok w)) (a : Action)
    (hkernel : Kernel w a) (hstep : w.step a = .ok w') : Reach N (.ok w') := by
  refine Machine.Reach.step h ?_ (congrArg some hstep)
  rintro _ ⟨⟩
  exact hkernel

/-- The descriptors of a server that was the first to open any. -/
def standingFd : ChannelRef → Nat
  | .acceptor => 3
  | .timer l => Nat.succ (2 * l + 3)
  | .wakeup l => Nat.succ (2 * l + 4)
  | .conn _ => 0

/-- A server just constructed. -/
def fresh (N : Nat) : World where
  reactors l := ⟨EventLoop.new l false 0, Poller.new, .outside⟩
  channels ref := Channel.new (homeLoop ref) (standingFd ref) (homeLoop ref)
  conns _ := none
  nextObj := 0
  openFds := (Finset.range (2 * N + 6)).image Nat.cast
  server := ⟨"echo", false, false, false, 1, ∅, ⟨false, N, 0, []⟩⟩
  trace := []

theorem standingFd_lt {N : Nat} {ref : ChannelRef} (h : Standing N ref) :
    standingFd ref < 2 * N + 6 := by
  have hloop (l : Nat) (hl : l ≤ N) : 2 * l + 5 < 2 * N + 6 := by omega
  cases ref with
  | acceptor => simp [standingFd]
  | timer l => exact Nat.lt_of_succ_lt (hloop l h)
  | wakeup l => exact hloop l h
  | conn c => exact h.elim

theorem standingFd_inj {N : Nat} {ref ref' : ChannelRef} (h : Standing N ref)
    (h' : Standing N ref') (heq : standingFd ref = standingFd ref') : ref = ref' := by
  have heven (l l' : Nat) (heq : 2 * l = 2 * l') : l = l' := by omega
  have hodd (l l' : Nat) : 2 * l ≠ 2 * l' + 1 := by omega
  cases ref with
  | acceptor => cases ref' <;> simp_all [standingFd, Standing]
  | timer l =>
      cases ref' with
      | timer l' => exact congrArg _ (heven l l' (by simpa [standingFd] using heq))
      | wakeup l' => exact absurd (by simpa [standingFd] using heq) (hodd l l')
      | acceptor => simp [standingFd] at heq
      | conn c => exact h'.elim
  | wakeup l =>
      cases ref' with
      | timer l' => exact absurd (by simpa [standingFd] using heq.symm) (hodd l' l)
      | wakeup l' => exact congrArg _ (heven l l' (by simpa [standingFd] using heq))
      | acceptor => simp [standingFd] at heq
      | conn c => exact h'.elim
  | conn c => exact h.elim

theorem initial_fresh (N : Nat) : Initial N (fresh N) where
  reactors _ := ⟨false, 0, rfl⟩
  channels ref := ⟨standingFd ref, homeLoop ref, rfl⟩
  descriptors _ href := ⟨Int.natCast_nonneg _,
    Finset.mem_image.mpr ⟨_, Finset.mem_range.mpr (standingFd_lt href), rfl⟩⟩
  distinct _ _ href href' heq := standingFd_inj href href' (Int.ofNat.inj heq)
  conns _ := rfl
  nextObj := rfl
  server := ⟨"echo", false, rfl⟩
  trace := rfl

theorem reach_fresh (N : Nat) : Reach N (.ok (fresh N)) :=
  Machine.Reach.init ⟨fresh N, rfl, initial_fresh N⟩

end World

end Yatwb
