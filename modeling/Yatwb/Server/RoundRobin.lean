import Yatwb.Foundation.RoundRobin
import Yatwb.Server.Affinity

/-!
# How connections are spread over the pool

`EventLoopThreadPool::getNextLoop` after `start`: its calls return the loops of
the pool in turn, and between any two of them everything else may happen that
leaves the loops and the cursor of the pool alone. Without loops, and before
`start`, the base loop is returned.
-/

namespace Yatwb.World

open Foundation

/-- What the other functions leave of a pool and its base loop. -/
structure SamePool (w w' : World) : Prop where
  thread : (w'.reactors 0).event.threadId = (w.reactors 0).event.threadId
  loops : w'.server.pool.loops = w.server.pool.loops
  next : w'.server.pool.next = w.server.pool.next

/-- The loops that calls of `getNextLoop` by the base thread have returned. -/
inductive PoolRun (w : World) : List LoopId → World → Prop
  | start : PoolRun w [] w
  | other {assigned w₁ w₂} (run : PoolRun w assigned w₁) (h : SamePool w₁ w₂) :
      PoolRun w assigned w₂
  | getNextLoop {assigned w₁ l w₂} (run : PoolRun w assigned w₁)
      (h : w₁.getNextLoop 0 = .ok (l, w₂)) : PoolRun w (assigned ++ [l]) w₂

variable {w w' : World} {assigned : List LoopId} {l : LoopId}

/-- `setThreadNum` of the pool. -/
def setThreadNum (w : World) (numThreads : Nat) : World :=
  { w with server := { w.server with pool := { w.server.pool with numThreads := numThreads } } }

theorem setThreadNum_samePool (w : World) (numThreads : Nat) :
    SamePool w (w.setThreadNum numThreads) :=
  ⟨rfl, rfl, rfl⟩

/-- What a call of `getNextLoop` by the base thread does. -/
structure Next (w : World) (l : LoopId) (w' : World) : Prop where
  thread : (w'.reactors 0).event.threadId = (w.reactors 0).event.threadId
  loops : w'.server.pool.loops = w.server.pool.loops
  base : w.server.pool.loops = [] → l = 0 ∧ w'.server.pool.next = w.server.pool.next
  pool : w.server.pool.next < w.server.pool.loops.length →
    w.server.pool.loops[w.server.pool.next]? = some l ∧
      w'.server.pool.next = (w.server.pool.next + 1) % w.server.pool.loops.length

/-- The cursor wraps at the end of the pool. -/
theorem wrap_eq {next n : Nat} (h : next < n) :
    (if n ≤ next + 1 then 0 else next + 1) = (next + 1) % n := by
  split
  · have heq : next + 1 = n := by omega
    rw [heq, Nat.mod_self]
  · rw [Nat.mod_eq_of_lt (by omega)]

theorem getNextLoop_spec (hbase : (w.reactors 0).event.threadId = 0) :
    ∃ l w', w.getNextLoop 0 = .ok (l, w') ∧ Next w l w' := by
  rw [getNextLoop, assert_bind_of hbase]
  cases hloops : w.server.pool.loops with
  | nil =>
      refine ⟨0, w, by simp only [hloops]; rfl, rfl, rfl, fun _ => ⟨rfl, rfl⟩, fun hlt => ?_⟩
      rw [hloops] at hlt
      exact absurd hlt (Nat.not_lt_zero _)
  | cons first rest =>
      simp only [hloops]
      refine ⟨_, _, rfl, rfl, hloops.symm, fun hnil => ?_, fun hlt => ?_⟩
      · rw [hloops] at hnil
        cases hnil
      · rw [hloops] at hlt ⊢
        refine ⟨?_, wrap_eq hlt⟩
        rw [List.getD_eq_getElem?_getD, List.getElem?_eq_getElem hlt]
        rfl

/-- Without loops, every call returns the base loop. -/
theorem PoolRun.of_no_loops (hbase : (w.reactors 0).event.threadId = 0)
    (hloops : w.server.pool.loops = []) (h : PoolRun w assigned w') :
    (w'.reactors 0).event.threadId = 0 ∧ w'.server.pool.loops = [] ∧
      w'.server.pool.next = w.server.pool.next ∧ ∀ l ∈ assigned, l = 0 := by
  induction h with
  | start => exact ⟨hbase, hloops, rfl, fun l hl => by cases hl⟩
  | other run h ih =>
      obtain ⟨hthread, hnone, hnext, hbases⟩ := ih
      exact ⟨h.thread.trans hthread, h.loops.trans hnone, h.next.trans hnext, hbases⟩
  | getNextLoop run h ih =>
      obtain ⟨hthread, hnone, hnext, hbases⟩ := ih
      obtain ⟨l', w'', hcall, hspec⟩ := getNextLoop_spec hthread
      cases hcall.symm.trans h
      obtain ⟨rfl, hkept⟩ := hspec.base hnone
      refine ⟨hspec.thread.trans hthread, hspec.loops.trans hnone, hkept.trans hnext, ?_⟩
      intro l hl
      rcases List.mem_append.mp hl with hl | hl
      · exact hbases l hl
      · exact List.mem_singleton.mp hl

/-- The pool after some calls: the loops are given out in turn, and the cursor counts the
calls modulo their number. -/
structure Turns (w : World) (given assigned : List LoopId) : Prop where
  thread : (w.reactors 0).event.threadId = 0
  loops : w.server.pool.loops = given
  next : w.server.pool.next = assigned.length % given.length
  inTurn : InTurn given assigned

theorem Turns.next_lt {given : List LoopId} (h : Turns w given assigned) (hpos : given ≠ []) :
    w.server.pool.next < w.server.pool.loops.length := by
  rw [h.next, h.loops]
  exact Nat.mod_lt _ (List.length_pos_iff.mpr hpos)

theorem PoolRun.turns (hbase : (w.reactors 0).event.threadId = 0)
    (hnext : w.server.pool.next = 0) (hpos : w.server.pool.loops ≠ [])
    (h : PoolRun w assigned w') : Turns w' w.server.pool.loops assigned := by
  induction h with
  | start => exact ⟨hbase, rfl, by rw [hnext, List.length_nil, Nat.zero_mod], inTurn_nil _⟩
  | other run h ih =>
      exact ⟨h.thread.trans ih.thread, h.loops.trans ih.loops, h.next.trans ih.next, ih.inTurn⟩
  | @getNextLoop assigned w₁ l w₂ run h ih =>
      obtain ⟨l', w'', hcall, hspec⟩ := getNextLoop_spec ih.thread
      cases hcall.symm.trans h
      obtain ⟨hget, hwrap⟩ := hspec.pool (ih.next_lt hpos)
      rw [ih.loops, ih.next] at hget hwrap
      refine ⟨hspec.thread.trans ih.thread, hspec.loops.trans ih.loops, ?_, ih.inTurn.concat hget⟩
      rw [hwrap, Nat.mod_add_mod, List.length_append, List.length_singleton]

/-- `start` creates the loops, each of another thread. -/
theorem poolStart_spec (hloops : w.server.pool.loops = []) (hstart : w.poolStart 0 = .ok w') :
    w'.reactors = w.reactors ∧ w'.server.pool.next = w.server.pool.next ∧
      w'.server.pool.loops = List.range' 1 w.server.pool.numThreads := by
  obtain ⟨-, hrest⟩ := check_bind_eq_ok.mp hstart
  obtain ⟨-, -, hrest⟩ := bind_eq_ok.mp hrest
  obtain rfl := Except.ok.inj hrest
  refine ⟨rfl, rfl, ?_⟩
  rw [startThreads, hloops, List.nil_append]

/-- For any number of threads: before `start` and without threads, every call returns the
base loop. After it, the calls return the loops of the pool in turn, at an index that is in
bounds, so two loops have got the same number of connections, up to one. -/
theorem round_robin {N : Nat} {w₀ w₁ w₂ : World} {early : List LoopId} (h : Initial N w₀)
    (hearly : PoolRun w₀ early w) (hstart : w.poolStart 0 = .ok w₁)
    (hrun : PoolRun w₁ assigned w₂) :
    (∀ l ∈ early, l = 0) ∧ w₁.server.pool.loops.length = w.server.pool.numThreads ∧
      (∃ l w₃, w₂.getNextLoop 0 = .ok (l, w₃)) ∧
      (w₁.server.pool.loops = [] → ∀ l ∈ assigned, l = 0) ∧
      (w₁.server.pool.loops ≠ [] →
        w₂.server.pool.loops = w₁.server.pool.loops ∧
        w₂.server.pool.next < w₂.server.pool.loops.length ∧
        (∀ k, k < assigned.length →
          assigned[k]? = w₁.server.pool.loops[k % w₁.server.pool.loops.length]?) ∧
        ∀ l ∈ w₁.server.pool.loops, ∀ l' ∈ w₁.server.pool.loops,
          assigned.count l ≤ assigned.count l' + 1) := by
  obtain ⟨name, writeCmplCb, hserver⟩ := h.server
  have hbase : (w₀.reactors 0).event.threadId = 0 := by
    obtain ⟨flag, counter, hl⟩ := h.reactors 0
    rw [hl]
    rfl
  obtain ⟨hthread, hnone, hnext, hbases⟩ := hearly.of_no_loops hbase (by rw [hserver])
  obtain ⟨hreactors, hkept, hloops⟩ := poolStart_spec hnone hstart
  have hthread₁ : (w₁.reactors 0).event.threadId = 0 := by rw [hreactors, hthread]
  have hnext₁ : w₁.server.pool.next = 0 := by rw [hkept, hnext, hserver]
  refine ⟨hbases, by rw [hloops, List.length_range'], ?_, ?_, ?_⟩
  · have hthread₂ : (w₂.reactors 0).event.threadId = 0 := by
      by_cases hempty : w₁.server.pool.loops = []
      · exact (hrun.of_no_loops hthread₁ hempty).1
      · exact (hrun.turns hthread₁ hnext₁ hempty).thread
    obtain ⟨l, w₃, hcall, -⟩ := getNextLoop_spec hthread₂
    exact ⟨l, w₃, hcall⟩
  · intro hempty
    exact (hrun.of_no_loops hthread₁ hempty).2.2.2
  · intro hpos
    have hturns := hrun.turns hthread₁ hnext₁ hpos
    have hnodup : w₁.server.pool.loops.Nodup := by
      rw [hloops]
      exact List.nodup_range'
    refine ⟨hturns.loops, hturns.next_lt hpos, hturns.inTurn, ?_⟩
    exact fun l hl l' hl' => hturns.inTurn.balanced hnodup hl hl'

/-- Two threads and three connections: the first loop has two of them. -/
theorem three_connections_two_loops : ∃ w w', (fresh 2).poolStart 0 = .ok w ∧
    PoolRun w [1, 2, 1] w' ∧ w'.server.pool.next < w'.server.pool.loops.length := by
  let w := (fresh 2).startThreads
  have hstart : (fresh 2).poolStart 0 = .ok w := rfl
  have hrun : ∃ w', PoolRun w [1, 2, 1] w' := by
    have hfirst := PoolRun.getNextLoop (w := w) .start rfl
    have hsecond := PoolRun.getNextLoop hfirst rfl
    exact ⟨_, PoolRun.getNextLoop hsecond rfl⟩
  obtain ⟨w', hrun⟩ := hrun
  have hmain := round_robin (initial_fresh 2) .start hstart hrun
  exact ⟨w, w', hstart, hrun, (hmain.2.2.2.2 (by decide)).2.1⟩

end Yatwb.World
