import Yatwb.Thread.Model
import Mathlib.Data.Fintype.EquivFin

/-!
# The start-up handshake

The owner of an `EventLoopThread` meets the new thread twice: at the latch,
after the new thread has stored its number, and at the condition variable,
after it has published its loop. The invariant of one `EventLoopThread` says
where the two threads can be relative to each other; the invariant of the pool
says that the threads before the current one have been met twice.
-/

namespace Yatwb

open Foundation

namespace EventLoopThread

/-- What the program point of the owner says about both meetings. -/
def OwnerOk (t : EventLoopThread) : Prop :=
  match t.owner with
  | .calling => t.started = false ∧ t.io = .unborn ∧
      t.latch.waiter.stage = .before ∧ t.loop.waiter.stage = .before
  | .creating => t.io = .unborn ∧
      t.latch.waiter.stage = .before ∧ t.loop.waiter.stage = .before
  | .latching => t.io ≠ .unborn ∧
      t.latch.waiter.stage = .during ∧ t.loop.waiter.stage = .before
  | .checking => t.io ≠ .unborn ∧
      t.latch.waiter.stage = .after ∧ t.loop.waiter.stage = .before
  | .waiting => t.io ≠ .unborn ∧
      t.latch.waiter.stage = .after ∧ t.loop.waiter.stage = .during
  | .returned loop => t.io ≠ .unborn ∧
      t.latch.waiter.stage = .after ∧ t.loop.waiter.stage = .after ∧ loop = some t.stack
  | .aborted => False

/-- What the program point of the new thread says about both meetings. -/
def IoOk (t : EventLoopThread) : Prop :=
  match t.io with
  | .unborn => t.latch.signaller.stage = .before ∧ t.loop.signaller.stage = .before ∧
      t.built = none
  | .storingTid => 0 < t.kernelTid ∧ t.latch.signaller.stage = .before ∧
      t.loop.signaller.stage = .before ∧ t.built = none
  | .countingDown => 0 < t.kernelTid ∧ t.tid = t.kernelTid ∧
      t.latch.signaller.stage = .during ∧ t.loop.signaller.stage = .before ∧ t.built = none
  | .constructing => 0 < t.kernelTid ∧ t.tid = t.kernelTid ∧
      t.latch.signaller.stage = .after ∧ t.loop.signaller.stage = .before ∧ t.built = none
  | .publishing => 0 < t.kernelTid ∧ t.tid = t.kernelTid ∧
      t.latch.signaller.stage = .after ∧ t.loop.signaller.stage = .during ∧
      t.built = some t.stack
  | .looping => 0 < t.kernelTid ∧ t.tid = t.kernelTid ∧
      t.latch.signaller.stage = .after ∧ t.loop.signaller.stage = .after ∧
      t.built = some t.stack

structure Inv (t : EventLoopThread) : Prop where
  latch : Monitor.Inv 1 0 t.latch
  loop : Monitor.Inv none (some t.stack) t.loop
  owner : t.OwnerOk
  io : t.IoOk

variable {t t' : EventLoopThread}

theorem inv_new : new.Inv :=
  ⟨Monitor.inv_new 1 0, Monitor.inv_new none _, ⟨rfl, rfl, rfl, rfl⟩, ⟨rfl, rfl, rfl⟩⟩

/-- Once the value of the latch has changed, the number has been stored. -/
theorem Inv.tid_stored (h : t.Inv) (hpassed : t.latch.waiter.passed = true) :
    0 < t.kernelTid ∧ t.tid = t.kernelTid := by
  have hchanged := h.latch.passed hpassed
  have hio := h.io
  unfold IoOk at hio
  split at hio
  · rw [Signaller.stage_eq_before.mp hio.1] at hchanged
    cases hchanged
  · rw [Signaller.stage_eq_before.mp hio.2.1] at hchanged
    cases hchanged
  all_goals exact ⟨hio.1, hio.2.1⟩

/-- Once `loop_` has been published, the loop has been constructed. -/
theorem Inv.loop_built (h : t.Inv) (hpassed : t.loop.waiter.passed = true) :
    t.built = some t.stack := by
  have hchanged := h.loop.passed hpassed
  have hio := h.io
  unfold IoOk at hio
  split at hio
  · rw [Signaller.stage_eq_before.mp hio.2.1] at hchanged
    cases hchanged
  · rw [Signaller.stage_eq_before.mp hio.2.2.1] at hchanged
    cases hchanged
  · rw [Signaller.stage_eq_before.mp hio.2.2.2.1] at hchanged
    cases hchanged
  · rw [Signaller.stage_eq_before.mp hio.2.2.2.1] at hchanged
    cases hchanged
  · exact hio.2.2.2.2
  · exact hio.2.2.2.2

/-- The points of the new thread are kept by what changes no signaller. -/
theorem IoOk.frame (h : t.IoOk) (hio : t'.io = t.io) (htid : t'.tid = t.tid)
    (hkernel : t'.kernelTid = t.kernelTid) (hstack : t'.stack = t.stack)
    (hbuilt : t'.built = t.built) (hlatch : t'.latch.signaller = t.latch.signaller)
    (hloop : t'.loop.signaller = t.loop.signaller) : t'.IoOk := by
  unfold IoOk
  rw [hio, htid, hkernel, hstack, hbuilt, hlatch, hloop]
  exact h

/-- The points of the owner are kept by what changes no stage of a waiter. -/
theorem OwnerOk.frame (h : t.OwnerOk) (howner : t'.owner = t.owner)
    (hstarted : t'.started = t.started) (hunborn : t'.io = .unborn ↔ t.io = .unborn)
    (hstack : t'.stack = t.stack) (hlatch : t'.latch.waiter.stage = t.latch.waiter.stage)
    (hloop : t'.loop.waiter.stage = t.loop.waiter.stage) : t'.OwnerOk := by
  unfold OwnerOk
  rw [howner, hstarted, hstack, hlatch, hloop, ne_eq, hunborn]
  exact h

/-- What the statements of the owner leave alone. -/
structure OwnerFrame (t t' : EventLoopThread) : Prop where
  io : t'.io = t.io
  stack : t'.stack = t.stack
  built : t'.built = t.built

theorem Inv.latching (h : t.Inv) (hpc : t.owner = .latching) {latch : CountDownLatch}
    (hstep : t.latch.wait = some latch) :
    Inv { t with
      latch := latch
      owner := if latch.waiter = .gone then .checking else .latching } := by
  obtain ⟨hsignaller, -, hstage⟩ := Monitor.wait_stage hstep
  have howner := h.owner
  simp only [OwnerOk, hpc] at howner
  obtain ⟨hborn, -, hloop⟩ := howner
  refine ⟨h.latch.wait rfl rfl hstep, h.loop, ?_,
    h.io.frame rfl rfl rfl rfl rfl hsignaller rfl⟩
  by_cases hgone : latch.waiter = .gone
  · simp only [OwnerOk, if_pos hgone]
    exact ⟨hborn, Waiter.stage_eq_after.mpr hgone, hloop⟩
  · simp only [OwnerOk, if_neg hgone]
    exact ⟨hborn, Waiter.stage_eq_during hstage hgone, hloop⟩

theorem Inv.waiting (h : t.Inv) (hpc : t.owner = .waiting) {loop : Monitor (Option Address)}
    (hstep : t.loop.wait Option.isSome = some loop) :
    Inv { t with
      loop := loop
      owner := if loop.waiter = .gone then .returned t.loop.value else .waiting } := by
  obtain ⟨hsignaller, -, hstage⟩ := Monitor.wait_stage hstep
  have howner := h.owner
  simp only [OwnerOk, hpc] at howner
  obtain ⟨hborn, hlatch, -⟩ := howner
  have hloop : loop.Inv none (some t.stack) := h.loop.wait rfl rfl hstep
  refine ⟨h.latch, hloop, ?_, h.io.frame rfl rfl rfl rfl rfl rfl hsignaller⟩
  by_cases hgone : loop.waiter = .gone
  · simp only [OwnerOk, if_pos hgone]
    refine ⟨hborn, hlatch, Waiter.stage_eq_after.mpr hgone, ?_⟩
    have hchanged := hloop.passed (hgone ▸ rfl)
    rw [hsignaller] at hchanged
    rw [h.loop.value_eq, if_pos hchanged]
  · simp only [OwnerOk, if_neg hgone]
    exact ⟨hborn, hlatch, Waiter.stage_eq_during hstage hgone⟩

theorem Inv.startLoop (h : t.Inv) (hstep : t.startLoop = some t') :
    t'.Inv ∧ OwnerFrame t t' := by
  have howner := h.owner
  unfold EventLoopThread.startLoop at hstep
  split at hstep
  · rename_i hpc
    simp only [OwnerOk, hpc] at howner
    obtain ⟨hstarted, hrest⟩ := howner
    rw [hstarted] at hstep
    obtain rfl := Option.some.inj hstep
    exact ⟨⟨h.latch, h.loop, hrest, h.io⟩, ⟨rfl, rfl, rfl⟩⟩
  · rename_i hpc
    obtain ⟨latch, hlatch, rfl⟩ := Option.map_eq_some_iff.mp hstep
    exact ⟨h.latching hpc hlatch, ⟨rfl, rfl, rfl⟩⟩
  · rename_i hpc
    simp only [OwnerOk, hpc] at howner
    obtain ⟨hborn, hlatch, hloop⟩ := howner
    have hgone := Waiter.stage_eq_after.mp hlatch
    obtain ⟨hpos, htid⟩ := h.tid_stored (hgone ▸ rfl)
    rw [if_pos (htid ▸ hpos)] at hstep
    obtain rfl := Option.some.inj hstep
    exact ⟨⟨h.latch, h.loop.beginWait (Waiter.stage_eq_before.mp hloop), ⟨hborn, hlatch, rfl⟩,
      h.io.frame rfl rfl rfl rfl rfl rfl rfl⟩, ⟨rfl, rfl, rfl⟩⟩
  · rename_i hpc
    obtain ⟨loop, hloop, rfl⟩ := Option.map_eq_some_iff.mp hstep
    exact ⟨h.waiting hpc hloop, ⟨rfl, rfl, rfl⟩⟩
  · cases hstep

theorem Inv.pthreadCreate (h : t.Inv) {tid : Nat} {stack : Address} (htid : 0 < tid)
    (hstep : t.pthreadCreate tid stack = some t') : t'.Inv := by
  have howner := h.owner
  unfold EventLoopThread.pthreadCreate at hstep
  split at hstep
  · rename_i hpc
    simp only [OwnerOk, hpc] at howner
    obtain ⟨hunborn, hlatch, hloop⟩ := howner
    have hio := h.io
    simp only [IoOk, hunborn] at hio
    obtain ⟨hlatch', hloop', hbuilt⟩ := hio
    obtain rfl := Option.some.inj hstep
    exact ⟨h.latch.beginWait (Waiter.stage_eq_before.mp hlatch),
      h.loop.retarget (Signaller.stage_eq_before.mp hloop') _, ⟨nofun, rfl, hloop⟩,
      ⟨htid, hlatch', hloop', hbuilt⟩⟩
  · cases hstep

theorem Inv.wakeSpuriously (h : t.Inv) (hstep : t.wakeSpuriously = some t') :
    t'.Inv ∧ OwnerFrame t t' := by
  unfold EventLoopThread.wakeSpuriously at hstep
  split at hstep
  · obtain ⟨latch, hlatch, rfl⟩ := Option.map_eq_some_iff.mp hstep
    obtain ⟨hsignaller, hstage⟩ := Monitor.wakeSpuriously_stage hlatch
    exact ⟨⟨h.latch.wakeSpuriously hlatch, h.loop,
      h.owner.frame rfl rfl Iff.rfl rfl hstage rfl,
      h.io.frame rfl rfl rfl rfl rfl hsignaller rfl⟩, ⟨rfl, rfl, rfl⟩⟩
  · obtain ⟨loop, hloop, rfl⟩ := Option.map_eq_some_iff.mp hstep
    obtain ⟨hsignaller, hstage⟩ := Monitor.wakeSpuriously_stage hloop
    exact ⟨⟨h.latch, h.loop.wakeSpuriously hloop,
      h.owner.frame rfl rfl Iff.rfl rfl rfl hstage,
      h.io.frame rfl rfl rfl rfl rfl rfl hsignaller⟩, ⟨rfl, rfl, rfl⟩⟩
  · cases hstep

/-- The new thread leaves the point of the owner alone. -/
structure IoFrame (t t' : EventLoopThread) : Prop where
  owner : t'.owner = t.owner
  stack : t'.stack = t.stack
  born : t.io ≠ .unborn

theorem Inv.countingDown (h : t.Inv) (hpc : t.io = .countingDown) {latch : CountDownLatch}
    (hstep : t.latch.countDown = some latch) :
    Inv { t with
      latch := latch
      io := if latch.signaller = .gone then .constructing else .countingDown } := by
  obtain ⟨hstage, -, hbegun⟩ := Monitor.signal_stage hstep
  have hio := h.io
  simp only [IoOk, hpc] at hio
  obtain ⟨hpos, htid, -, hrest⟩ := hio
  have hlatch : Monitor.Inv 1 0 latch := h.latch.signal rfl rfl hstep
  by_cases hgone : latch.signaller = .gone
  · simp only [if_pos hgone]
    exact ⟨hlatch, h.loop, h.owner.frame rfl rfl (by simp [hpc]) rfl hstage rfl,
      ⟨hpos, htid, Signaller.stage_eq_after.mpr hgone, hrest⟩⟩
  · simp only [if_neg hgone]
    exact ⟨hlatch, h.loop, h.owner.frame rfl rfl (by simp [hpc]) rfl hstage rfl,
      ⟨hpos, htid, Signaller.stage_eq_during hbegun hgone, hrest⟩⟩

theorem Inv.publishing (h : t.Inv) (hpc : t.io = .publishing) {loop : Monitor (Option Address)}
    (hstep : t.loop.signal (fun _ => t.built) (fun _ => true) = some loop) :
    Inv { t with
      loop := loop
      io := if loop.signaller = .gone then .looping else .publishing } := by
  obtain ⟨hstage, -, hbegun⟩ := Monitor.signal_stage hstep
  have hio := h.io
  simp only [IoOk, hpc] at hio
  obtain ⟨hpos, htid, hlatch, -, hbuilt⟩ := hio
  have hloop : loop.Inv none (some t.stack) := h.loop.signal hbuilt rfl hstep
  by_cases hgone : loop.signaller = .gone
  · simp only [if_pos hgone]
    exact ⟨h.latch, hloop, h.owner.frame rfl rfl (by simp [hpc]) rfl rfl hstage,
      ⟨hpos, htid, hlatch, Signaller.stage_eq_after.mpr hgone, hbuilt⟩⟩
  · simp only [if_neg hgone]
    exact ⟨h.latch, hloop, h.owner.frame rfl rfl (by simp [hpc]) rfl rfl hstage,
      ⟨hpos, htid, hlatch, Signaller.stage_eq_during hbegun hgone, hbuilt⟩⟩

theorem Inv.runInThread (h : t.Inv) (hstep : t.runInThread = some t') :
    t'.Inv ∧ IoFrame t t' := by
  have hio := h.io
  unfold EventLoopThread.runInThread at hstep
  split at hstep
  · rename_i hpc
    simp only [IoOk, hpc] at hio
    obtain ⟨hpos, hlatch, hrest⟩ := hio
    obtain rfl := Option.some.inj hstep
    exact ⟨⟨h.latch.beginSignal (Signaller.stage_eq_before.mp hlatch), h.loop,
      h.owner.frame rfl rfl (by simp [hpc]) rfl rfl rfl, ⟨hpos, rfl, rfl, hrest⟩⟩,
      ⟨rfl, rfl, hpc ▸ nofun⟩⟩
  · rename_i hpc
    obtain ⟨latch, hlatch, rfl⟩ := Option.map_eq_some_iff.mp hstep
    exact ⟨h.countingDown hpc hlatch, ⟨rfl, rfl, hpc ▸ nofun⟩⟩
  · rename_i hpc
    simp only [IoOk, hpc] at hio
    obtain ⟨hpos, htid, hlatch, hloop, -⟩ := hio
    obtain rfl := Option.some.inj hstep
    exact ⟨⟨h.latch, h.loop.beginSignal (Signaller.stage_eq_before.mp hloop),
      h.owner.frame rfl rfl (by simp [hpc]) rfl rfl rfl, ⟨hpos, htid, hlatch, rfl, rfl⟩⟩,
      ⟨rfl, rfl, hpc ▸ nofun⟩⟩
  · rename_i hpc
    obtain ⟨loop, hloop, rfl⟩ := Option.map_eq_some_iff.mp hstep
    exact ⟨h.publishing hpc hloop, ⟨rfl, rfl, hpc ▸ nofun⟩⟩
  · cases hstep

/-- An owner that is blocked although the count is zero is woken by the next
statement of the new thread. -/
theorem Inv.latch_notified (h : t.Inv) (hblocked : t.latch.waiter = .blocked)
    (hzero : t.latch.value = 0) : ∃ t', t.runInThread = some t' ∧ t'.latch.waiter = .woken := by
  have hchanged : t.latch.signaller.changed = true := by
    have hvalue := h.latch.value_eq
    rw [hzero] at hvalue
    cases hs : t.latch.signaller.changed with
    | false => rw [hs] at hvalue; cases hvalue
    | true => rfl
  have hnext := h.latch.notified hblocked hchanged
  have hio := h.io
  cases hpc : t.io with
  | countingDown =>
      simp only [EventLoopThread.runInThread, hpc, CountDownLatch.countDown, Monitor.signal, hnext]
      exact ⟨_, rfl, by simp [hzero, hblocked, Waiter.notified]⟩
  | _ =>
      simp only [IoOk, hpc, hnext, Signaller.stage, reduceCtorEq, false_and, and_false] at hio

/-- An owner that is blocked although the loop is published is woken by the next
statement of the new thread. -/
theorem Inv.loop_notified (h : t.Inv) (hblocked : t.loop.waiter = .blocked)
    (hset : t.loop.value ≠ none) : ∃ t', t.runInThread = some t' ∧ t'.loop.waiter = .woken := by
  have hchanged : t.loop.signaller.changed = true := by
    have hvalue := h.loop.value_eq
    cases hs : t.loop.signaller.changed with
    | false => rw [hs] at hvalue; exact absurd hvalue hset
    | true => rfl
  have hnext := h.loop.notified hblocked hchanged
  have hio := h.io
  cases hpc : t.io with
  | publishing =>
      simp only [EventLoopThread.runInThread, hpc, Monitor.signal, hnext]
      exact ⟨_, rfl, by simp [hblocked, Waiter.notified]⟩
  | _ =>
      simp only [IoOk, hpc, hnext, Signaller.stage, reduceCtorEq, false_and, and_false] at hio

/-- What `startLoop` returns is the loop that the new thread has built. -/
theorem Inv.returned (h : t.Inv) {loop : Option Address} (hreturned : t.owner = .returned loop) :
    loop = some t.stack ∧ t.built = loop := by
  have howner := h.owner
  simp only [OwnerOk, hreturned] at howner
  obtain ⟨-, -, hgone, rfl⟩ := howner
  exact ⟨rfl, h.loop_built (Waiter.stage_eq_after.mp hgone ▸ rfl)⟩

/-- The new thread has a next statement until it calls `loop`, or the owner is
in the way, inside a monitor. -/
theorem Inv.io_progress (h : t.Inv) (hborn : t.io ≠ .unborn) (hlooping : t.io ≠ .looping) :
    t.runInThread.isSome = true ∨ t.latch.wait.isSome = true ∨
      (t.loop.wait Option.isSome).isSome = true := by
  have hio := h.io
  unfold EventLoopThread.runInThread
  cases hpc : t.io with
  | unborn => exact absurd hpc hborn
  | looping => exact absurd hpc hlooping
  | storingTid => exact Or.inl rfl
  | constructing => exact Or.inl rfl
  | countingDown =>
      simp only [IoOk, hpc] at hio
      simp only [Option.isSome_map]
      rcases h.latch.signal_progress hio.2.2.1 with hsignal | hwait
      · exact Or.inl hsignal
      · exact Or.inr (Or.inl hwait)
  | publishing =>
      simp only [IoOk, hpc] at hio
      simp only [Option.isSome_map]
      rcases h.loop.signal_progress hio.2.2.2.1 with hsignal | hwait
      · exact Or.inl hsignal
      · exact Or.inr (Or.inr hwait)

/-- The owner or the new thread has a next statement until `startLoop` has returned. -/
theorem Inv.progress (h : t.Inv) (hcreating : t.owner ≠ .creating)
    (hreturned : ∀ loop, t.owner ≠ .returned loop) :
    t.startLoop.isSome = true ∨ t.runInThread.isSome = true := by
  have howner := h.owner
  have hended : t.io = .looping →
      t.latch.signaller.stage = .after ∧ t.loop.signaller.stage = .after := by
    intro hpc
    have hio := h.io
    simp only [IoOk, hpc] at hio
    exact ⟨hio.2.2.1, hio.2.2.2.1⟩
  unfold EventLoopThread.startLoop
  cases hpc : t.owner with
  | creating => exact absurd hpc hcreating
  | returned loop => exact absurd hpc (hreturned loop)
  | aborted => simp only [OwnerOk, hpc] at howner
  | calling => exact Or.inl (by simp [apply_ite Option.isSome])
  | checking => exact Or.inl (by simp [apply_ite Option.isSome])
  | latching =>
      simp only [OwnerOk, hpc] at howner
      obtain ⟨hborn, hlatch, hloop⟩ := howner
      simp only [Option.isSome_map]
      by_cases hlooping : t.io = .looping
      · exact Or.inl (h.latch.wait_isSome hlatch (hended hlooping).1)
      · rcases h.io_progress hborn hlooping with hrun | hwait | hwait
        · exact Or.inr hrun
        · exact Or.inl hwait
        · obtain ⟨m, hm⟩ := Option.isSome_iff_exists.mp hwait
          have hstage := (Monitor.wait_stage hm).2.1
          rw [hloop] at hstage
          cases hstage
  | waiting =>
      simp only [OwnerOk, hpc] at howner
      obtain ⟨hborn, hlatch, hloop⟩ := howner
      simp only [Option.isSome_map]
      by_cases hlooping : t.io = .looping
      · exact Or.inl (h.loop.wait_isSome hloop (hended hlooping).2)
      · rcases h.io_progress hborn hlooping with hrun | hwait | hwait
        · exact Or.inr hrun
        · obtain ⟨m, hm⟩ := Option.isSome_iff_exists.mp hwait
          have hstage := (Monitor.wait_stage hm).2.1
          rw [hlatch] at hstage
          cases hstage
        · exact Or.inl hwait

end EventLoopThread

namespace PoolStart

/-- What the program point of the base thread says about the containers. -/
def BaseOk (s : PoolStart) : Prop :=
  match s.base with
  | .calling => s.started = false ∧ s.threads.length = s.loops.length
  | .iterating => s.threads.length = s.loops.length
  | .starting => s.threads.length = s.loops.length + 1 ∧ s.loops.length < s.numThreads
  | .returned => s.threads.length = s.loops.length ∧ s.loops.length = s.numThreads
  | .aborted => False

/-- The loops that are stored are those of the threads before the current one. -/
structure Inv (numThreads : Nat) (s : PoolStart) : Prop where
  numThreads_eq : s.numThreads = numThreads
  threads : ∀ t ∈ s.threads, t.Inv
  base : s.BaseOk
  bound : s.loops.length ≤ s.numThreads
  loops : ∀ (i : Nat) (loop : Option Address), s.loops[i]? = some loop →
    ∃ t : EventLoopThread, s.threads[i]? = some t ∧ t.owner = .returned loop
  distinct : ∀ (i j : Nat) (t u : EventLoopThread), s.threads[i]? = some t →
    s.threads[j]? = some u → i ≠ j → t.io ≠ .unborn → u.io ≠ .unborn → t.stack ≠ u.stack

variable {numThreads : Nat} {s s' : PoolStart}

theorem inv_init (numThreads : Nat) : (new numThreads).Inv numThreads := by
  refine ⟨rfl, ?_, ⟨rfl, rfl⟩, Nat.zero_le _, ?_, ?_⟩
  · intro t ht
    exact absurd ht List.not_mem_nil
  · intro i loop hloop
    cases hloop
  · intro i j t u ht
    cases ht

theorem modify_eq_some {i : Nat} {f : EventLoopThread → Option EventLoopThread}
    (h : s.modify i f = some s') :
    ∃ t t', s.threads[i]? = some t ∧ f t = some t' ∧
      s' = { s with threads := s.threads.set i t' } := by
  unfold modify at h
  split at h
  · cases h
  · rename_i t ht
    obtain ⟨t', ht', rfl⟩ := Option.map_eq_some_iff.mp h
    exact ⟨t, t', ht, ht', rfl⟩

/-- A statement of one thread that keeps the invariant of its `EventLoopThread`,
what `startLoop` returned, and the stacks keeps the invariant of the pool. -/
theorem Inv.set (h : s.Inv numThreads) {i : Nat} {t t' : EventLoopThread}
    (ht : s.threads[i]? = some t) (hinv : t'.Inv)
    (hreturned : ∀ loop, t.owner = .returned loop → t'.owner = .returned loop)
    (hstack : t'.io ≠ .unborn → ∀ (j : Nat) (u : EventLoopThread), s.threads[j]? = some u →
      i ≠ j → u.io ≠ .unborn → t'.stack ≠ u.stack) :
    Inv numThreads { s with threads := s.threads.set i t' } := by
  have hlt : i < s.threads.length := (List.getElem?_eq_some_iff.mp ht).1
  have hget : ∀ (j : Nat) (u : EventLoopThread), (s.threads.set i t')[j]? = some u →
      j = i ∧ u = t' ∨ i ≠ j ∧ s.threads[j]? = some u := by
    intro j u hu
    by_cases hij : i = j
    · subst hij
      rw [List.getElem?_set_self hlt] at hu
      exact Or.inl ⟨rfl, (Option.some.inj hu).symm⟩
    · rw [List.getElem?_set_ne hij] at hu
      exact Or.inr ⟨hij, hu⟩
  refine ⟨h.numThreads_eq, ?_, ?_, h.bound, ?_, ?_⟩
  · intro u hu
    rcases List.mem_or_eq_of_mem_set hu with hu | rfl
    · exact h.threads u hu
    · exact hinv
  · have hbase := h.base
    unfold BaseOk at hbase ⊢
    simpa only [List.length_set] using hbase
  · intro j loop hloop
    obtain ⟨u, hu, howner⟩ := h.loops j loop hloop
    by_cases hij : i = j
    · subst hij
      rw [ht] at hu
      obtain rfl := Option.some.inj hu
      exact ⟨t', List.getElem?_set_self hlt, hreturned loop howner⟩
    · exact ⟨u, (List.getElem?_set_ne hij).trans hu, howner⟩
  · intro j k u v hu hv hjk hborn hborn'
    rcases hget j u hu with ⟨rfl, rfl⟩ | ⟨hij, hold⟩
    · rcases hget k v hv with ⟨rfl, -⟩ | ⟨-, hold'⟩
      · exact absurd rfl hjk
      · exact hstack hborn k v hold' hjk hborn'
    · rcases hget k v hv with ⟨rfl, rfl⟩ | ⟨-, hold'⟩
      · exact (hstack hborn' j u hold (Ne.symm hjk) hborn).symm
      · exact h.distinct j k u v hold hold' hjk hborn hborn'

/-- The statement changes neither the stack of its thread nor whether it exists. -/
theorem Inv.set_frame (h : s.Inv numThreads) {i : Nat} {t t' : EventLoopThread}
    (ht : s.threads[i]? = some t) (hinv : t'.Inv)
    (hreturned : ∀ loop, t.owner = .returned loop → t'.owner = .returned loop)
    (hstack : t'.stack = t.stack) (hborn : t'.io ≠ .unborn → t.io ≠ .unborn) :
    Inv numThreads { s with threads := s.threads.set i t' } := by
  refine h.set ht hinv hreturned ?_
  intro hnew j u hu hij hborn'
  rw [hstack]
  exact h.distinct i j t u ht hu hij (hborn hnew) hborn'

theorem Inv.append_thread (h : s.Inv numThreads) (hlength : s.threads.length = s.loops.length)
    (hlt : s.loops.length < s.numThreads) :
    Inv numThreads { s with
      threads := s.threads ++ [EventLoopThread.new]
      base := .starting } := by
  have hget : ∀ (j : Nat) (u : EventLoopThread),
      (s.threads ++ [EventLoopThread.new])[j]? = some u → u.io ≠ .unborn →
      s.threads[j]? = some u := by
    intro j u hu hborn
    rw [List.getElem?_append] at hu
    split at hu
    · exact hu
    · rw [List.getElem?_singleton] at hu
      split at hu
      · obtain rfl := Option.some.inj hu
        exact absurd rfl hborn
      · cases hu
  refine ⟨h.numThreads_eq, ?_, ?_, h.bound, ?_, ?_⟩
  · intro u hu
    rcases List.mem_append.mp hu with hu | hu
    · exact h.threads u hu
    · rw [List.mem_singleton.mp hu]
      exact EventLoopThread.inv_new
  · exact ⟨by simp [hlength], hlt⟩
  · intro j loop hloop
    obtain ⟨u, hu, howner⟩ := h.loops j loop hloop
    have hj : j < s.threads.length := (List.getElem?_eq_some_iff.mp hu).1
    exact ⟨u, (List.getElem?_append_left hj).trans hu, howner⟩
  · intro j k u v hu hv hjk hborn hborn'
    exact h.distinct j k u v (hget j u hu hborn) (hget k v hv hborn') hjk hborn hborn'

theorem Inv.append_loop (h : s.Inv numThreads) {t : EventLoopThread} {loop : Option Address}
    (hlength : s.threads.length = s.loops.length + 1) (hlt : s.loops.length < s.numThreads)
    (ht : s.threads[s.loops.length]? = some t) (hreturned : t.owner = .returned loop) :
    Inv numThreads { s with loops := s.loops ++ [loop], base := .iterating } := by
  refine ⟨h.numThreads_eq, h.threads, ?_, ?_, ?_, h.distinct⟩
  · change s.threads.length = (s.loops ++ [loop]).length
    rw [hlength, List.length_append, List.length_singleton]
  · change (s.loops ++ [loop]).length ≤ s.numThreads
    rw [List.length_append, List.length_singleton]
    exact hlt
  · intro j loop' hloop'
    rw [List.getElem?_append] at hloop'
    split at hloop'
    · exact h.loops j loop' hloop'
    · rename_i hge
      rw [List.getElem?_singleton] at hloop'
      split at hloop'
      · rename_i hzero
        obtain rfl := Option.some.inj hloop'
        have hj : j = s.loops.length := by omega
        exact ⟨t, hj ▸ ht, hreturned⟩
      · cases hloop'

/-- The base thread appends a thread, or the loop of the current one. -/
theorem Inv.start (h : s.Inv numThreads) (hstep : s.start = some s') : s'.Inv numThreads := by
  have hbase := h.base
  unfold PoolStart.start at hstep
  split at hstep
  · rename_i hpc
    simp only [BaseOk, hpc] at hbase
    rw [hbase.1] at hstep
    obtain rfl := Option.some.inj hstep
    exact ⟨h.numThreads_eq, h.threads, hbase.2, h.bound, h.loops, h.distinct⟩
  · rename_i hpc
    simp only [BaseOk, hpc] at hbase
    split at hstep
    · rename_i hlt
      obtain rfl := Option.some.inj hstep
      exact h.append_thread hbase hlt
    · rename_i hge
      obtain rfl := Option.some.inj hstep
      have hbound := h.bound
      exact ⟨h.numThreads_eq, h.threads, ⟨hbase, by simp only; omega⟩, h.bound, h.loops, h.distinct⟩
  · rename_i hpc
    simp only [BaseOk, hpc] at hbase
    split at hstep
    · cases hstep
    · rename_i t ht
      split at hstep
      · rename_i loop hreturned
        obtain rfl := Option.some.inj hstep
        exact h.append_loop hbase.1 hbase.2 ht hreturned
      · rename_i hnot
        obtain ⟨t₀, t', ht₀, hstart, rfl⟩ := modify_eq_some hstep
        rw [ht] at ht₀
        obtain rfl := Option.some.inj ht₀
        obtain ⟨hinv, hframe⟩ := (h.threads t (List.mem_of_getElem? ht)).startLoop hstart
        refine h.set_frame ht hinv ?_ hframe.stack (by rw [hframe.io]; exact id)
        intro loop hloop
        exact absurd hloop (hnot loop)
  · cases hstep

theorem Inv.next (h : s.Inv numThreads) {a : Action} (hstep : s.next a = some s') :
    s'.Inv numThreads := by
  cases a with
  | base => exact h.start hstep
  | pthreadCreate tid stack =>
      simp only [PoolStart.next] at hstep
      split at hstep
      · rename_i hfresh
        obtain ⟨t, t', ht, hcreate, rfl⟩ := modify_eq_some hstep
        have hinv := (h.threads t (List.mem_of_getElem? ht)).pthreadCreate hfresh.1 hcreate
        unfold EventLoopThread.pthreadCreate at hcreate
        split at hcreate
        · rename_i hcreating
          obtain rfl := Option.some.inj hcreate
          refine h.set ht hinv ?_ ?_
          · intro loop hloop
            rw [hcreating] at hloop
            cases hloop
          · intro _ j u hu _ hborn
            exact (hfresh.2 u (List.mem_of_getElem? hu) hborn).symm
        · cases hcreate
      · cases hstep
  | wakeSpuriously =>
      obtain ⟨t, t', ht, hwake, rfl⟩ := modify_eq_some hstep
      obtain ⟨hinv, hframe⟩ := (h.threads t (List.mem_of_getElem? ht)).wakeSpuriously hwake
      refine h.set_frame ht hinv ?_ hframe.stack (by rw [hframe.io]; exact id)
      intro loop hloop
      simp only [EventLoopThread.wakeSpuriously, hloop] at hwake
      cases hwake
  | io i =>
      obtain ⟨t, t', ht, hrun, rfl⟩ := modify_eq_some hstep
      obtain ⟨hinv, hframe⟩ := (h.threads t (List.mem_of_getElem? ht)).runInThread hrun
      refine h.set_frame ht hinv ?_ hframe.stack fun _ => hframe.born
      intro loop hloop
      rw [hframe.owner]
      exact hloop

/-- Until `start` has returned, some thread has a next statement. -/
theorem Inv.progress (h : s.Inv numThreads) :
    s.base = .returned ∨ ∃ a, a ≠ .wakeSpuriously ∧ (s.next a).isSome = true := by
  have hbase := h.base
  cases hpc : s.base with
  | returned => exact Or.inl rfl
  | aborted => simp only [BaseOk, hpc] at hbase
  | calling =>
      refine Or.inr ⟨.base, nofun, ?_⟩
      simp [PoolStart.next, PoolStart.start, hpc, apply_ite Option.isSome]
  | iterating =>
      refine Or.inr ⟨.base, nofun, ?_⟩
      simp [PoolStart.next, PoolStart.start, hpc, apply_ite Option.isSome]
  | starting =>
      simp only [BaseOk, hpc] at hbase
      have hlt : s.loops.length < s.threads.length := by omega
      have ht := List.getElem?_eq_getElem hlt
      have hinv := h.threads _ (List.getElem_mem hlt)
      by_cases hcreating : s.threads[s.loops.length].owner = .creating
      · obtain ⟨stack, hstack⟩ :=
          Infinite.exists_notMem_finset (s.threads.map EventLoopThread.stack).toFinset
        refine Or.inr ⟨.pthreadCreate 1 stack, nofun, ?_⟩
        have hfresh : ∀ t ∈ s.threads, t.io ≠ .unborn → t.stack ≠ stack := by
          intro t hmem _ heq
          apply hstack
          rw [List.mem_toFinset, ← heq]
          exact List.mem_map_of_mem hmem
        simp only [PoolStart.next, if_pos (And.intro Nat.one_pos hfresh), modify, ht,
          EventLoopThread.pthreadCreate, hcreating]
        rfl
      · by_cases hreturned : ∃ loop, s.threads[s.loops.length].owner = .returned loop
        · obtain ⟨loop, hloop⟩ := hreturned
          refine Or.inr ⟨.base, nofun, ?_⟩
          simp only [PoolStart.next, PoolStart.start, hpc, ht, hloop]
          rfl
        · rcases hinv.progress hcreating (not_exists.mp hreturned) with hstart | hrun
          · refine Or.inr ⟨.base, nofun, ?_⟩
            simp only [PoolStart.next, PoolStart.start, hpc, ht]
            split
            · rfl
            · simpa only [modify, ht, Option.isSome_map] using hstart
          · refine Or.inr ⟨.io s.loops.length, nofun, ?_⟩
            simpa only [PoolStart.next, modify, ht, Option.isSome_map] using hrun

/-- The loops that are stored are the loops that the threads have built. -/
theorem Inv.loops_eq (h : s.Inv numThreads) (hlength : s.threads.length = s.loops.length) :
    s.loops = s.threads.map EventLoopThread.built := by
  apply List.ext_getElem?
  intro i
  rw [List.getElem?_map]
  cases hloop : s.loops[i]? with
  | none =>
      have hge := List.getElem?_eq_none_iff.mp hloop
      rw [List.getElem?_eq_none (hlength ▸ hge)]
      rfl
  | some loop =>
      obtain ⟨t, ht, hreturned⟩ := h.loops i loop hloop
      rw [ht, ← ((h.threads t (List.mem_of_getElem? ht)).returned hreturned).2]
      rfl

theorem Inv.nodup_loops (h : s.Inv numThreads) : s.loops.Nodup := by
  apply List.nodup_iff_getElem?_ne_getElem?.mpr
  intro i j hij hj heq
  have hi : i < s.loops.length := by omega
  obtain ⟨t, ht, hreturned⟩ := h.loops i _ (List.getElem?_eq_getElem hi)
  obtain ⟨u, hu, hreturned'⟩ := h.loops j _ (List.getElem?_eq_getElem hj)
  have hinv := h.threads t (List.mem_of_getElem? ht)
  have hinv' := h.threads u (List.mem_of_getElem? hu)
  rw [List.getElem?_eq_getElem hi, List.getElem?_eq_getElem hj, (hinv.returned hreturned).1,
    (hinv'.returned hreturned').1] at heq
  have howner := hinv.owner
  have howner' := hinv'.owner
  simp only [EventLoopThread.OwnerOk, hreturned] at howner
  simp only [EventLoopThread.OwnerOk, hreturned'] at howner'
  exact h.distinct i j t u ht hu (Nat.ne_of_lt hij) howner.1 howner'.1
    (Option.some.inj (Option.some.inj heq))

/-- What both meetings guarantee in a state of the start of a pool. -/
structure Met (numThreads : Nat) (s : PoolStart) : Prop where
  tidStored : ∀ t ∈ s.threads, t.latch.waiter.passed = true →
    0 < t.tid ∧ t.tid = t.kernelTid
  loopBuilt : ∀ t ∈ s.threads, ∀ loop, t.owner = .returned loop →
    loop ≠ none ∧ t.built = loop
  latchNotified : ∀ t ∈ s.threads, t.latch.waiter = .blocked → t.latch.value = 0 →
    ∃ t', t.runInThread = some t' ∧ t'.latch.waiter = .woken
  loopNotified : ∀ t ∈ s.threads, t.loop.waiter = .blocked → t.loop.value ≠ none →
    ∃ t', t.runInThread = some t' ∧ t'.loop.waiter = .woken
  goesOn : s.base = .returned ∨ ∃ a, a ≠ .wakeSpuriously ∧ (s.next a).isSome = true
  complete : s.base = .returned → s.loops.length = numThreads ∧
    s.loops = s.threads.map EventLoopThread.built ∧ s.loops.Nodup ∧ none ∉ s.loops

/-- In every state of every run of `start`: the latch is not passed before the
number is stored, `startLoop` returns the loop that has been built, an owner
that is blocked without a reason is about to be notified, some thread can go
on until `start` has returned, and then the loops are those of the threads. -/
theorem start_meets_threads {numThreads : Nat} {s : PoolStart}
    (hs : (machine numThreads).Reachable s) : s.Met numThreads := by
  have h : s.Inv numThreads := by
    refine hs.invariant ?_ ?_
    · rintro s rfl
      exact inv_init numThreads
    · intro s a s' hinv _ hnext
      exact hinv.next hnext
  refine ⟨?_, ?_, ?_, ?_, h.progress, ?_⟩
  · intro t ht hpassed
    obtain ⟨hpos, htid⟩ := (h.threads t ht).tid_stored hpassed
    exact ⟨htid ▸ hpos, htid⟩
  · intro t ht loop hreturned
    obtain ⟨hloop, hbuilt⟩ := (h.threads t ht).returned hreturned
    exact ⟨hloop ▸ nofun, hbuilt⟩
  · intro t ht
    exact (h.threads t ht).latch_notified
  · intro t ht
    exact (h.threads t ht).loop_notified
  · intro hreturned
    have hbase := h.base
    simp only [BaseOk, hreturned] at hbase
    refine ⟨hbase.2.trans h.numThreads_eq, h.loops_eq hbase.1, h.nodup_loops, ?_⟩
    intro hnone
    obtain ⟨i, hi⟩ := List.getElem?_of_mem hnone
    obtain ⟨t, ht, hloop⟩ := h.loops i none hi
    cases ((h.threads t (List.mem_of_getElem? ht)).returned hloop).1

/-- The statements of one `startLoop` whose owner is blocked at both meetings and
wakes up once without a notification. -/
def meeting (i tid : Nat) (stack : Address) : List Action :=
  [.base, .base, .pthreadCreate tid stack, .base, .base, .wakeSpuriously, .base, .base,
    .io i, .io i, .io i, .io i, .io i, .base, .base, .base, .base, .io i, .base, .base,
    .io i, .io i, .io i, .io i, .base, .base, .base, .base]

/-- Two threads are started. -/
theorem start_meets_two_threads :
    ∃ s, (machine 2).Reachable s ∧ s.base = .returned ∧ s.loops = [some 100, some 200] ∧
      s.Met 2 := by
  obtain ⟨s, hs, hp⟩ := Machine.exists_reach (M := machine 2) (fun _ _ => True) rfl
    (.base :: meeting 0 7 100 ++ meeting 1 8 200 ++ [.base])
    (fun s => decide (s.base = .returned ∧ s.loops = [some 100, some 200])) (by decide +kernel)
  obtain ⟨hbase, hloops⟩ := of_decide_eq_true hp
  exact ⟨s, hs, hbase, hloops, start_meets_threads hs⟩

end PoolStart

end Yatwb
