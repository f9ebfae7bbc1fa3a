import Yatwb.Buffer.QueueRuns
import Yatwb.Foundation.Machine
import Mathlib.Data.List.MinMax

/-!
# The size of the vector over runs

`retrieve` moves `reader_idx_` up and `resize` keeps the gap in front of it,
so the size of the vector is not a function of the readable bytes. It is
bounded by the largest demand so far, the readable bytes and the bytes asked
for at a call of `ensureWritableBytes`: the vector grows only while the gap is
smaller than the bytes asked for and the reserve.
-/

namespace Yatwb

open Foundation

namespace Buffer

/-- The calls of the class, `shrink` and `swap` left out. -/
inductive Call
  | op (o : Op)
  | readFd (r : ReadResult)
  deriving DecidableEq, Repr

/-- Make one call, with the string it returns if it returns one. -/
def call (b : Buffer) : Call → Except Fault (Buffer × Option (List Byte))
  | .op o => b.apply o
  | .readFd r => do return ((← b.readFd r).1, none)

/-- The queue operation a call stands for. -/
def Call.meaning (b : Buffer) : Call → QueueOp
  | .op o => o.meaning b
  | .readFd (.received data) => .push data
  | .readFd (.error _) => .keep

/-- The calls of `ensureWritableBytes` that a call makes, each with the buffer it
is made on and the bytes it asks for. -/
def ensures (b : Buffer) : Call → List (Buffer × Nat)
  | .op (.append data) | .op (.appendString data) | .op (.appendVoid data) => [(b, data.length)]
  | .op (.ensureWritableBytes len) => [(b, len)]
  | .readFd (.received data) =>
      if data.length ≤ b.writableBytes then []
      else
        [({ b with
            buffer := writeAt b.buffer b.writerIdx (data.take b.writableBytes)
            writerIdx := b.buffer.length }, data.length - b.writableBytes)]
  | _ => []

/-- The readable bytes and the bytes asked for. -/
def demand (p : Buffer × Nat) : Nat := p.1.readableBytes + p.2

/-- The size of the vector after a call. -/
def sizeAfter (b : Buffer) : Call → Nat
  | .op (.append data) | .op (.appendString data) | .op (.appendVoid data) =>
      b.sizeWith data.length
  | .op (.ensureWritableBytes len) => b.sizeWith len
  | .readFd (.received data) => b.sizeReceiving data.length
  | _ => b.buffer.length

variable {b b' : Buffer}

/-- Whoever sees a call return has kept its precondition. -/
theorem pre_of_apply_ok {o : Op} {r : Buffer × Option (List Byte)} (h : b.apply o = .ok r) :
    o.Pre b := by
  cases o with
  | append | appendString | appendVoid | retrieveAll | retrieveAsString | ensureWritableBytes =>
      trivial
  | retrieve len =>
      obtain ⟨b', hb', -⟩ := bind_eq_ok.mp h
      exact (check_bind_eq_ok.mp hb').1
  | retrieveUntil last =>
      obtain ⟨b', hb', -⟩ := bind_eq_ok.mp h
      obtain ⟨hpeek, hb'⟩ := check_bind_eq_ok.mp hb'
      exact ⟨hpeek, (check_bind_eq_ok.mp hb').1⟩
  | prepend data =>
      obtain ⟨b', hb', -⟩ := bind_eq_ok.mp h
      exact (check_bind_eq_ok.mp hb').1
  | hasWritten stored =>
      obtain ⟨b', hb', -⟩ := bind_eq_ok.mp h
      have hroom : b.writerIdx + stored.length ≤ b.buffer.length := (copyIn_eq_ok hb').1
      simp only [Op.Pre, writableBytes]
      omega

/-- The calls that make no space keep the vector or store into it. -/
theorem apply_size {o : Op} {r : Buffer × Option (List Byte)} (hb : b.Ordered)
    (h : b.apply o = .ok r) : r.1.buffer.length = b.sizeAfter (.op o) := by
  cases o with
  | append data | appendString data | appendVoid data =>
      obtain ⟨b₁, hb₁, hr⟩ := bind_eq_ok.mp h
      obtain ⟨b₂, hb₂, -, -, hsize⟩ := append_ordered hb data
      obtain rfl := Except.ok.inj (hb₂.symm.trans hb₁)
      obtain rfl := Except.ok.inj hr
      exact hsize
  | ensureWritableBytes len =>
      obtain ⟨b₁, hb₁, hr⟩ := bind_eq_ok.mp h
      obtain ⟨b₂, hb₂, -, -, -, hsize⟩ := ensureWritableBytes_ordered hb len
      obtain rfl := Except.ok.inj (hb₂.symm.trans hb₁)
      obtain rfl := Except.ok.inj hr
      exact hsize
  | retrieve len =>
      obtain ⟨b₁, hb₁, hr⟩ := bind_eq_ok.mp h
      obtain rfl := Except.ok.inj hr
      obtain rfl := Except.ok.inj (check_bind_eq_ok.mp hb₁).2
      rfl
  | retrieveUntil last =>
      obtain ⟨b₁, hb₁, hr⟩ := bind_eq_ok.mp h
      obtain rfl := Except.ok.inj hr
      have hb₁ := (check_bind_eq_ok.mp (check_bind_eq_ok.mp hb₁).2).2
      obtain rfl := Except.ok.inj (check_bind_eq_ok.mp hb₁).2
      rfl
  | retrieveAll =>
      obtain rfl := Except.ok.inj h
      rfl
  | retrieveAsString =>
      obtain ⟨⟨b₁, str⟩, hb₁, hr⟩ := bind_eq_ok.mp h
      obtain rfl := Except.ok.inj hr
      have hb₁ := Except.ok.inj (check_bind_eq_ok.mp hb₁).2
      obtain rfl := congrArg Prod.fst hb₁
      rfl
  | prepend data =>
      obtain ⟨b₁, hb₁, hr⟩ := bind_eq_ok.mp h
      obtain rfl := Except.ok.inj hr
      obtain ⟨-, rfl⟩ := copyIn_eq_ok (check_bind_eq_ok.mp hb₁).2
      exact length_writeAt _ _ _
  | hasWritten stored =>
      obtain ⟨b₁, hb₁, hr⟩ := bind_eq_ok.mp h
      obtain rfl := Except.ok.inj hr
      obtain ⟨-, rfl⟩ := copyIn_eq_ok hb₁
      exact length_writeAt _ _ _

/-- What a call that returns does to the vector and to the readable bytes. -/
theorem call_spec {c : Call} {out : Option (List Byte)} (hb : b.Inv)
    (h : b.call c = .ok (b', out)) :
    b'.Inv ∧ b'.buffer.length = b.sizeAfter c ∧
      (b'.content, out) = (c.meaning b).apply b.content := by
  cases c with
  | op o =>
      obtain ⟨b₁, out₁, hb₁, hinv, hmeaning⟩ := apply_refines hb (pre_of_apply_ok h)
      cases hb₁.symm.trans h
      exact ⟨hinv, apply_size hb.ordered h, hmeaning⟩
  | readFd r =>
      obtain ⟨r', hr', hb'⟩ := bind_eq_ok.mp h
      cases r with
      | error errno =>
          cases hr'
          cases hb'
          exact ⟨hb, rfl, rfl⟩
      | received data =>
          obtain ⟨b₁, hb₁, hordered, hcontent, hsize⟩ := readFd_ordered hb.ordered data
          cases hb₁.symm.trans hr'
          cases hb'
          refine ⟨?_, hsize, by rw [hcontent]; rfl⟩
          exact hordered.inv hb (hsize ▸ hb.ordered.le_sizeReceiving data.length)

/-- The vector grows only when crowded, and then to at most twice the demand. -/
theorem Ordered.sizeWith_le (h : b.Ordered) (len : Nat) :
    b.sizeWith len = b.buffer.length ∨
      b.Crowded len ∧ b.sizeWith len ≤ 2 * demand (b, len) + cheapPrependSize := by
  unfold sizeWith
  split
  · rename_i hgrow
    have hcrowded : b.buffer.length - b.writerIdx + b.readerIdx < len + cheapPrependSize := hgrow.2
    have := h.reader_le
    refine .inr ⟨hgrow.2, ?_⟩
    simp only [demand, readableBytes]
    omega
  · exact .inl rfl

/-- A call changes the size of the vector only in a crowded call of `ensureWritableBytes`. -/
theorem Ordered.sizeAfter_le (h : b.Ordered) (c : Call) :
    b.sizeAfter c = b.buffer.length ∨
      ∃ p ∈ b.ensures c, p.1.Crowded p.2 ∧
        b.sizeAfter c ≤ 2 * demand p + cheapPrependSize := by
  have hsingle : ∀ len, b.sizeWith len = b.buffer.length ∨ ∃ p ∈ [(b, len)],
      p.1.Crowded p.2 ∧ b.sizeWith len ≤ 2 * demand p + cheapPrependSize := by
    intro len
    simpa using h.sizeWith_le len
  cases c with
  | op o =>
      cases o with
      | append data | appendString data | appendVoid data => exact hsingle data.length
      | ensureWritableBytes len => exact hsingle len
      | retrieve | retrieveUntil | retrieveAll | retrieveAsString | prepend | hasWritten =>
          exact .inl rfl
  | readFd r =>
      cases r with
      | error errno => exact .inl rfl
      | received data =>
          simp only [sizeAfter, sizeReceiving, ensures]
          by_cases hfits : data.length ≤ b.writableBytes
          · exact .inl (if_pos hfits)
          · rw [if_neg hfits, if_neg hfits]
            have hfilled := h.filled.sizeWith_le (data.length - b.writableBytes)
            simpa only [List.mem_singleton, exists_eq_left, Crowded, demand, writableBytes,
              prependableBytes, readableBytes, Buffer.filled, length_writeAt] using hfilled

theorem Ordered.le_sizeAfter (h : b.Ordered) (c : Call) : b.buffer.length ≤ b.sizeAfter c := by
  unfold sizeAfter
  split
  · exact h.le_sizeWith _
  · exact h.le_sizeWith _
  · exact h.le_sizeWith _
  · exact h.le_sizeWith _
  · exact h.le_sizeReceiving _
  · exact Nat.le_refl _

end Buffer

/-- A buffer with the demands of all calls of `ensureWritableBytes` so far. -/
structure Metered where
  buffer : Buffer
  demands : List Nat
  deriving DecidableEq, Repr

namespace Metered

open Buffer (Call Fault)

def new : Metered := ⟨.new, []⟩

def step (s : Metered) (c : Call) : Except Fault Metered := do
  let (b, _) ← s.buffer.call c
  return ⟨b, s.demands ++ (s.buffer.ensures c).map Buffer.demand⟩

/-- The largest demand so far. -/
def peak (s : Metered) : Nat := s.demands.foldr max 0

/-- The runs of a buffer from its construction on. A run whose caller breaks an
assert or stores outside the vector has ended. -/
abbrev bufferRuns : Machine (Except Fault Metered) Call := faulting (· = new) step

/-- The size of the vector is covered by the initial size or by some demand. -/
structure Covered (s : Metered) : Prop where
  inv : s.buffer.Inv
  covered : s.buffer.buffer.length ≤ Buffer.cheapPrependSize + Buffer.initialSize ∨
    ∃ d ∈ s.demands, s.buffer.buffer.length ≤ 2 * d + Buffer.cheapPrependSize

variable {s s' : Metered}

theorem new_covered : new.Covered :=
  ⟨Buffer.new_inv, .inl (by simp [new, Buffer.new])⟩

theorem step_covered (h : s.Covered) {c : Call} (hs : s.step c = .ok s') : s'.Covered := by
  obtain ⟨⟨b, out⟩, hb, hs'⟩ := bind_eq_ok.mp hs
  obtain rfl := Except.ok.inj hs'
  obtain ⟨hinv, hsize, -⟩ := Buffer.call_spec h.inv hb
  refine ⟨hinv, ?_⟩
  rcases h.inv.ordered.sizeAfter_le c with hkept | ⟨p, hp, -, hle⟩
  · rcases h.covered with hinitial | ⟨d, hd, hle⟩
    · exact .inl (by rw [hsize, hkept]; exact hinitial)
    · exact .inr ⟨d, List.mem_append_left _ hd, by rw [hsize, hkept]; exact hle⟩
  · have hmem : Buffer.demand p ∈ (s.buffer.ensures c).map Buffer.demand := List.mem_map_of_mem hp
    exact .inr ⟨Buffer.demand p, List.mem_append_right _ hmem, hsize ▸ hle⟩

theorem covered_of_reach (h : bufferRuns.Reachable (.ok s)) : s.Covered := by
  have hreach : bufferRuns.Reach (whileRunning fun _ _ => True) (.ok s) :=
    h.mono fun _ _ _ _ _ => trivial
  have hends : Ends Covered (fun _ => True) (.ok s : Except Fault Metered) := by
    refine ends_of_reach ?_ ?_ hreach
    · rintro s rfl
      exact new_covered
    · intro s c hs _
      exact ends_of (fun s' hs' => step_covered hs hs') fun _ _ => trivial
  exact hends

theorem le_peak {d : Nat} (hd : d ∈ s.demands) : d ≤ s.peak :=
  List.le_max_of_le' 0 hd (Nat.le_refl d)

/-- A bound on every demand bounds the vector. -/
theorem Covered.size_le (h : s.Covered) {bound : Nat} (hbound : ∀ d ∈ s.demands, d ≤ bound) :
    s.buffer.buffer.length ≤
      max (Buffer.cheapPrependSize + Buffer.initialSize)
        (2 * bound + Buffer.cheapPrependSize) := by
  rcases h.covered with hinitial | ⟨d, hd, hle⟩
  · exact le_max_of_le_left hinitial
  · have hd := hbound d hd
    exact le_max_of_le_right (by omega)

/-- After every run the vector is within the initial size or twice the largest
demand. A call never makes it smaller, and makes it larger only in a call of
`ensureWritableBytes` for which the free bytes at both ends are too few. A run
of any length with bounded demands stays within a bounded size. -/
theorem growth_bounded {s : Metered} (h : bufferRuns.Reachable (.ok s)) :
    s.buffer.buffer.length ≤
        max (Buffer.cheapPrependSize + Buffer.initialSize)
          (2 * s.peak + Buffer.cheapPrependSize) ∧
      (∀ c b' out, s.buffer.call c = .ok (b', out) →
        s.buffer.buffer.length ≤ b'.buffer.length ∧
        (s.buffer.buffer.length < b'.buffer.length →
          ∃ p ∈ s.buffer.ensures c, p.1.writableBytes + p.1.prependableBytes <
            p.2 + Buffer.cheapPrependSize)) ∧
      ∀ bound, (∀ d ∈ s.demands, d ≤ bound) →
        s.buffer.buffer.length ≤
          max (Buffer.cheapPrependSize + Buffer.initialSize)
            (2 * bound + Buffer.cheapPrependSize) := by
  have hs := covered_of_reach h
  refine ⟨hs.size_le fun d hd => le_peak hd, ?_, fun bound hbound => hs.size_le hbound⟩
  intro c b' out hb'
  obtain ⟨-, hsize, -⟩ := Buffer.call_spec hs.inv hb'
  constructor
  · exact hsize ▸ hs.inv.ordered.le_sizeAfter c
  · intro hgrows
    rcases hs.inv.ordered.sizeAfter_le c with hkept | ⟨p, hp, hcrowded, -⟩
    · omega
    · exact ⟨p, hp, hcrowded⟩

/-- All bytes are read as they arrive, and then 1500 bytes are asked for at the end
of a vector with a gap in front. -/
theorem growth_bounded_with_gap :
    ∃ s, bufferRuns.Reachable (.ok s) ∧ s.buffer.buffer.length = 1518 ∧ s.peak = 1500 ∧
      s.buffer.buffer.length ≤ max 1032 3008 := by
  obtain ⟨s, hreach, hs⟩ := Machine.exists_reach (M := bufferRuns) (fun _ _ => True)
    ⟨new, rfl, rfl⟩
    [.op (.append [1, 2, 3, 4, 5, 6, 7, 8]), .op (.retrieve 8),
      .readFd (.received [9, 10]), .op (.retrieve 2), .op (.ensureWritableBytes 1500)]
    (fun s => match s with
      | .ok s => decide (s.buffer.buffer.length = 1518 ∧ s.peak = 1500)
      | .error _ => false) (by decide +kernel)
  cases s with
  | error f => cases hs
  | ok s =>
      obtain ⟨hsize, hpeak⟩ := of_decide_eq_true hs
      have hbound := (growth_bounded hreach).1
      rw [hpeak] at hbound
      exact ⟨s, hreach, hsize, hpeak, hbound⟩

end Metered

end Yatwb
