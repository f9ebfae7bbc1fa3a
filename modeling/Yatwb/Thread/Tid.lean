import Yatwb.EventLoop.Model
import Mathlib.Logic.Function.Basic

/-!
# The cached thread id

`CurrentThread::tid` of `thread.cpp`, and the two functions of `EventLoop` that
call it: the constructor, which keeps the id as `thread_id_`, and
`isInLoopThread`. The first call of a thread asks the kernel and stores the
answer in `t_cachedTid`. Every further call ends without a `return`, so its
value is unspecified. The check is right in every run in which no thread calls
`tid` twice, and in no other.

## Implementation notes

* `junk n` is what the call with the number `n` returns if it does not return.
* The threads of a run are alive together, so `gettid` tells them apart.
* Nothing installs `afterFork`, so no thread clears `t_cachedTid` again.
-/

namespace Yatwb

/-- `gettid`: ids are positive, and different for different threads. -/
structure Gettid where
  gettid : ThreadId → Int
  pos : ∀ t, 0 < gettid t
  injective : Function.Injective gettid

namespace CurrentThread

/-- A call that needs the id of its thread: the constructor of an `EventLoop`, its
`isInLoopThread`, by the number of the loop, or any other. -/
inductive Code
  | eventLoop
  | isInLoopThread (l : Nat)
  | tid
  deriving DecidableEq, Repr

structure Call where
  thread : ThreadId
  code : Code
  deriving DecidableEq, Repr

/-- A loop that was constructed: by whom, and its `thread_id_`. -/
structure Created where
  creator : ThreadId
  threadId : Int
  deriving DecidableEq, Repr

/-- What a thread got from `tid`, and what `isInLoopThread` made of it for the loop of
the creator. -/
structure Answer where
  thread : ThreadId
  tid : Int
  inLoop : Option (ThreadId × Bool)
  deriving DecidableEq, Repr

/-- `t_cachedTid` of every thread, the loops, and the answers so far. -/
structure Threads where
  cachedTid : ThreadId → Int
  loops : List Created
  answers : List Answer

def new : Threads := ⟨fun _ => 0, [], []⟩

section Code

variable (k : Gettid) (junk : Nat → Int) (s : Threads)

/-- `CurrentThread::tid`. -/
def tid (t : ThreadId) : Int × Threads :=
  if s.cachedTid t = 0 then
    let s := { s with cachedTid := Function.update s.cachedTid t (k.gettid t) }
    (s.cachedTid t, s)
  else (junk s.answers.length, s)

def step (c : Call) : Threads :=
  match c.code with
  | .eventLoop =>
      let (id, s) := tid k junk s c.thread
      { s with
        loops := s.loops ++ [⟨c.thread, id⟩]
        answers := s.answers ++ [⟨c.thread, id, none⟩] }
  | .isInLoopThread l =>
      match s.loops[l]? with
      | none => s
      | some loop =>
          let (id, s) := tid k junk s c.thread
          let inLoop := loop.threadId == id
          { s with answers := s.answers ++ [⟨c.thread, id, some (loop.creator, inLoop)⟩] }
  | .tid =>
      let (id, s) := tid k junk s c.thread
      { s with answers := s.answers ++ [⟨c.thread, id, none⟩] }

def run (s : Threads) : List Call → Threads
  | [] => s
  | c :: rest => run (step k junk s c) rest

end Code

/-- With `n` loops there, the call can be made. -/
def Call.possible (n : Nat) (c : Call) : Bool :=
  match c.code with
  | .isInLoopThread l => decide (l < n)
  | _ => true

/-- The loops after a call. -/
def Call.created (n : Nat) (c : Call) : Nat := if c.code = .eventLoop then n + 1 else n

/-- The threads that call `tid`, in order, with `n` loops at the start. -/
def callers (n : Nat) : List Call → List ThreadId
  | [] => []
  | c :: rest =>
      if c.possible n then c.thread :: callers (c.created n) rest
      else callers (c.created n) rest

/-- The id is that of the thread, and the check says whether it created the loop. -/
def Answer.Right (k : Gettid) (a : Answer) : Prop :=
  a.tid = k.gettid a.thread ∧
    ∀ creator inLoop, a.inLoop = some (creator, inLoop) → (inLoop = true ↔ a.thread = creator)

variable {k : Gettid} {junk : Nat → Int} {s : Threads} {c : Call}

/-- A right check is the one that the event loops are modelled with. -/
theorem Answer.Right.eq_isInLoopThread {φ : Type} {a : Answer} (h : a.Right k) {inLoop : Bool}
    {l : EventLoop φ} (ha : a.inLoop = some (l.threadId, inLoop)) :
    inLoop = l.isInLoopThread a.thread := by
  rw [Bool.eq_iff_iff, h.2 _ _ ha, EventLoop.isInLoopThread, beq_iff_eq, eq_comm]

/-- The id that a call gets. -/
def got (k : Gettid) (junk : Nat → Int) (s : Threads) (t : ThreadId) : Int :=
  if s.cachedTid t = 0 then k.gettid t else junk s.answers.length

/-- What a possible call does. -/
structure Stepped (k : Gettid) (junk : Nat → Int) (s : Threads) (c : Call) (s' : Threads) :
    Prop where
  cached : s'.cachedTid = if s.cachedTid c.thread = 0
    then Function.update s.cachedTid c.thread (k.gettid c.thread) else s.cachedTid
  loops : s'.loops = s.loops ∨ s'.loops = s.loops ++ [⟨c.thread, got k junk s c.thread⟩]
  answers : ∃ inLoop, s'.answers = s.answers ++ [⟨c.thread, got k junk s c.thread, inLoop⟩] ∧
    ∀ creator verdict, inLoop = some (creator, verdict) →
      ∃ loop ∈ s.loops, loop.creator = creator ∧
        verdict = (loop.threadId == got k junk s c.thread)

theorem tid_eq (t : ThreadId) : tid k junk s t = (got k junk s t,
    { s with cachedTid := if s.cachedTid t = 0
      then Function.update s.cachedTid t (k.gettid t) else s.cachedTid }) := by
  simp only [tid, got]
  split
  · rw [Function.update_self]
  · rfl

theorem stepped (k : Gettid) (junk : Nat → Int) (h : c.possible s.loops.length = true) :
    Stepped k junk s c (step k junk s c) := by
  obtain ⟨t, code⟩ := c
  cases code with
  | eventLoop =>
      simp only [step, tid_eq]
      exact ⟨rfl, .inr rfl, none, rfl, fun _ _ hnone => by cases hnone⟩
  | isInLoopThread l =>
      have hl : l < s.loops.length := of_decide_eq_true h
      simp only [step, List.getElem?_eq_getElem hl, tid_eq]
      refine ⟨rfl, .inl rfl, _, rfl, ?_⟩
      rintro creator verdict ⟨⟩
      exact ⟨_, List.getElem_mem hl, rfl, rfl⟩
  | tid =>
      simp only [step, tid_eq]
      exact ⟨rfl, .inl rfl, none, rfl, fun _ _ hnone => by cases hnone⟩

/-- A call on a loop that is not there is not made. -/
theorem step_of_impossible (h : c.possible s.loops.length = false) : step k junk s c = s := by
  obtain ⟨t, code⟩ := c
  cases code with
  | eventLoop => cases h
  | isInLoopThread l =>
      have hl : s.loops.length ≤ l := Nat.le_of_not_lt (of_decide_eq_false h)
      simp only [step, List.getElem?_eq_none hl]
  | tid => cases h

theorem length_step (c : Call) : (step k junk s c).loops.length = c.created s.loops.length := by
  obtain ⟨t, code⟩ := c
  cases code with
  | eventLoop =>
      simp only [step, tid_eq, Call.created, List.length_append, List.length_singleton]
      rfl
  | isInLoopThread l =>
      simp only [step, Call.created]
      split
      · rfl
      · rw [tid_eq]
        rfl
  | tid =>
      simp only [step, tid_eq, Call.created]
      rfl

theorem Stepped.cached_of_ne {s' : Threads} (h : Stepped k junk s c s') {t : ThreadId}
    (ht : t ≠ c.thread) : s'.cachedTid t = s.cachedTid t := by
  rw [h.cached]
  split
  · exact Function.update_of_ne ht ..
  · rfl

/-- After a call the cache is filled. -/
theorem Stepped.cached_ne_zero {s' : Threads} (h : Stepped k junk s c s') :
    s'.cachedTid c.thread ≠ 0 := by
  rw [h.cached]
  split
  · rw [Function.update_self]
    exact Int.ne_of_gt (k.pos c.thread)
  · assumption

/-- Loops and answers have the right ids. -/
structure Sound (k : Gettid) (s : Threads) : Prop where
  loops : ∀ loop ∈ s.loops, loop.threadId = k.gettid loop.creator
  answers : ∀ a ∈ s.answers, a.Right k

theorem new_sound : Sound k new :=
  ⟨fun loop hloop => (by cases hloop), fun a ha => (by cases ha)⟩

/-- The first call of a thread gets its id, and compares it with another one. -/
theorem Sound.step (h : Sound k s) {s' : Threads} (hstep : Stepped k junk s c s')
    (hfirst : s.cachedTid c.thread = 0) : Sound k s' := by
  have hgot : got k junk s c.thread = k.gettid c.thread := if_pos hfirst
  constructor
  · intro loop hloop
    rcases hstep.loops with hloops | hloops
    · exact h.loops loop (hloops ▸ hloop)
    · rw [hloops] at hloop
      rcases List.mem_append.mp hloop with hloop | hloop
      · exact h.loops loop hloop
      · obtain rfl := List.mem_singleton.mp hloop
        exact hgot
  · obtain ⟨inLoop, hanswers, hchecks⟩ := hstep.answers
    intro a ha
    rw [hanswers] at ha
    rcases List.mem_append.mp ha with ha | ha
    · exact h.answers a ha
    · obtain rfl := List.mem_singleton.mp ha
      refine ⟨hgot, ?_⟩
      intro creator verdict hverdict
      obtain ⟨loop, hloop, rfl, rfl⟩ := hchecks creator verdict hverdict
      rw [beq_iff_eq, hgot, h.loops loop hloop]
      exact ⟨fun heq => (k.injective heq).symm, fun heq => congrArg k.gettid heq.symm⟩

theorem callers_of_possible (k : Gettid) (junk : Nat → Int)
    (h : c.possible s.loops.length = true) (rest : List Call) :
    callers s.loops.length (c :: rest) =
      c.thread :: callers (step k junk s c).loops.length rest := by
  rw [callers, if_pos h, length_step]

theorem created_of_impossible {n : Nat} (h : c.possible n = false) : c.created n = n := by
  obtain ⟨t, code⟩ := c
  cases code with
  | eventLoop => cases h
  | isInLoopThread l => rfl
  | tid => rfl

theorem callers_of_impossible {n : Nat} (h : c.possible n = false) (rest : List Call) :
    callers n (c :: rest) = callers n rest := by
  rw [callers, h, if_neg Bool.false_ne_true, created_of_impossible h]

/-- Calls that are the first of their threads keep everything right. -/
theorem Sound.run (h : Sound k s) {calls : List Call}
    (hfirst : ∀ t ∈ callers s.loops.length calls, s.cachedTid t = 0)
    (hnodup : (callers s.loops.length calls).Nodup) : Sound k (run k junk s calls) := by
  induction calls generalizing s with
  | nil => exact h
  | cons c rest ih =>
      cases hpossible : c.possible s.loops.length with
      | false =>
          rw [callers_of_impossible hpossible] at hfirst hnodup
          rw [CurrentThread.run, step_of_impossible hpossible]
          exact ih h hfirst hnodup
      | true =>
          have hstep := stepped k junk hpossible
          rw [callers_of_possible k junk hpossible] at hfirst hnodup
          obtain ⟨hfresh, hrest⟩ := List.nodup_cons.mp hnodup
          apply ih (h.step hstep (hfirst c.thread (List.mem_cons_self ..))) _ hrest
          intro t ht
          have hne : t ≠ c.thread := fun heq => hfresh (heq ▸ ht)
          rw [hstep.cached_of_ne hne]
          exact hfirst t (List.mem_cons_of_mem _ ht)

theorem answers_step (c : Call) : s.answers <+: (step k junk s c).answers := by
  cases hpossible : c.possible s.loops.length with
  | false => simp only [step_of_impossible hpossible, List.prefix_refl]
  | true =>
      obtain ⟨inLoop, hanswers, -⟩ := (stepped k junk hpossible).answers
      rw [hanswers]
      exact List.prefix_append ..

theorem answers_run (calls : List Call) : s.answers <+: (run k junk s calls).answers := by
  induction calls generalizing s with
  | nil => exact List.prefix_refl _
  | cons c rest ih => exact (answers_step c).trans ih

/-- A further call of a thread may return zero, which is no id. -/
theorem first_of_right (hright : ∀ a ∈ (step k (fun _ => 0) s c).answers, a.Right k)
    (hpossible : c.possible s.loops.length = true) : s.cachedTid c.thread = 0 := by
  by_contra hcached
  have hstep := stepped k (fun _ => 0) hpossible
  obtain ⟨inLoop, hanswers, -⟩ := hstep.answers
  rw [hanswers] at hright
  have hid := (hright _ (List.mem_append_right _ (List.mem_singleton_self _))).1
  have hzero : got k (fun _ => 0) s c.thread = 0 := if_neg hcached
  exact absurd (hid.symm.trans hzero) (Int.ne_of_gt (k.pos c.thread))

/-- If zeros are right everywhere, every call was the first of its thread. -/
theorem nodup_of_right {calls : List Call}
    (hright : ∀ a ∈ (run k (fun _ => 0) s calls).answers, a.Right k) :
    (∀ t ∈ callers s.loops.length calls, s.cachedTid t = 0) ∧
      (callers s.loops.length calls).Nodup := by
  induction calls generalizing s with
  | nil => exact ⟨fun t ht => (by cases ht), List.nodup_nil⟩
  | cons c rest ih =>
      cases hpossible : c.possible s.loops.length with
      | false =>
          rw [CurrentThread.run, step_of_impossible hpossible] at hright
          rw [callers_of_impossible hpossible]
          exact ih hright
      | true =>
          have hstep := stepped k (fun _ => 0) hpossible
          obtain ⟨hfirst, hnodup⟩ := ih hright
          have hcached : s.cachedTid c.thread = 0 :=
            first_of_right (fun a ha => hright a ((answers_run rest).subset ha)) hpossible
          have hfresh : c.thread ∉ callers (step k (fun _ => 0) s c).loops.length rest :=
            fun hmem => hstep.cached_ne_zero (hfirst _ hmem)
          rw [callers_of_possible k (fun _ => 0) hpossible]
          refine ⟨?_, List.nodup_cons.mpr ⟨hfresh, hnodup⟩⟩
          intro t ht
          rcases List.mem_cons.mp ht with rfl | ht
          · exact hcached
          · have hne : t ≠ c.thread := fun heq => hfresh (heq ▸ ht)
            rw [← hstep.cached_of_ne hne]
            exact hfirst t ht

/-- Whatever a call returns that does not return: in every run, all ids and all checks
are right exactly when no thread calls `tid` twice. -/
theorem checks_right_iff (k : Gettid) (calls : List Call) :
    (∀ junk, ∀ a ∈ (run k junk new calls).answers, a.Right k) ↔ (callers 0 calls).Nodup := by
  constructor
  · intro hright
    exact (nodup_of_right (hright fun _ => 0)).2
  · intro hnodup junk
    exact (Sound.run new_sound (fun t _ => rfl) hnodup).answers

/-- Threads with the ids 1, 2, and so on. -/
def numbered : Gettid where
  gettid t := t + 1
  pos t := by omega
  injective _ _ h := Int.ofNat.inj ((Int.add_left_inj 1).mp h)

/-- A thread constructs a loop and asks whether it is in its thread. The second call of
`tid` returns zero, and the answer is no. -/
theorem creator_not_in_loop_thread :
    (run numbered (fun _ => 0) new [⟨0, .eventLoop⟩, ⟨0, .isInLoopThread 0⟩]).answers =
      [⟨0, 1, none⟩, ⟨0, 0, some (0, false)⟩] ∧
    ¬ ∀ a ∈ (run numbered (fun _ => 0) new [⟨0, .eventLoop⟩, ⟨0, .isInLoopThread 0⟩]).answers,
      a.Right numbered := by
  have hanswers : (run numbered (fun _ => 0) new
      [⟨0, .eventLoop⟩, ⟨0, .isInLoopThread 0⟩]).answers =
        [⟨0, 1, none⟩, ⟨0, 0, some (0, false)⟩] := by decide
  refine ⟨hanswers, fun hright => ?_⟩
  rw [hanswers] at hright
  have hsecond := hright ⟨0, 0, some (0, false)⟩
    (List.mem_cons_of_mem _ (List.mem_singleton_self _))
  exact Bool.false_ne_true ((hsecond.2 0 false rfl).mpr rfl)

end CurrentThread

end Yatwb
