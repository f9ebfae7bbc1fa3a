import Yatwb.Buffer.Model
import Yatwb.Foundation.Check
import Mathlib.Algebra.Group.Nat.Defs

/-!
# The buffer of a log line

`FixedBuffer` of `log_stream.h`, for every `SIZE`, and the operators of
`LogStream` that the header defines. `append` takes a record that is shorter
than the space that is left, and nothing of any other record, as long as the
cast of its length to `int` does not make a long record look short.

## Implementation notes

* A `const char*` is the sequence of bytes from there on, and a `size_t` a
  64-bit word. A `memcpy` past the end of `data_` is a fault.
* The buffer of `LogStream` has the size `kSmallBuffer`; its operators are
  stated for every size. The operators for numbers have no definition in the
  header, apart from the one that passes a `float` on to another of them.
-/

namespace Yatwb

open Foundation

/-- A `const char*`. -/
abbrev CharPtr := Nat → Byte

/-- The bytes that a pointer and a length stand for. -/
def CharPtr.record (buf : CharPtr) (len : Nat) : List Byte := (List.range len).map buf

/-- The pointer to the bytes of a string. -/
def CharPtr.ofList (text : List Byte) : CharPtr := fun i => text.getD i 0

structure FixedBuffer (SIZE : Nat) where
  data : Vector Byte SIZE
  cur : Nat

namespace FixedBuffer

inductive Fault
  | memcpyPastEnd
  deriving DecidableEq, Repr

/-- The largest `int`. -/
def intMax : Nat := 2 ^ 31 - 1

variable {SIZE : Nat}

/-- The constructor, with the content of the memory. -/
def new (memory : Vector Byte SIZE) : FixedBuffer SIZE := ⟨memory, 0⟩

/-- `static_cast<int>`. -/
def toInt (len : BitVec 64) : Int := (len.setWidth 32).toInt

def avail (b : FixedBuffer SIZE) : Int := toInt (BitVec.ofInt 64 (SIZE - b.cur))

/-- `memcpy(cur_, buf, len)`. -/
def memcpy (b : FixedBuffer SIZE) (buf : CharPtr) (len : Nat) : FixedBuffer SIZE :=
  { b with data := Vector.ofFn fun i =>
      if b.cur ≤ i ∧ i < b.cur + len then buf (i - b.cur) else b.data[i] }

def add (b : FixedBuffer SIZE) (len : Nat) : FixedBuffer SIZE := { b with cur := b.cur + len }

def append (b : FixedBuffer SIZE) (buf : CharPtr) (len : BitVec 64) :
    Except Fault (FixedBuffer SIZE) :=
  if toInt len < b.avail then do
    check (b.cur + len.toNat ≤ SIZE) .memcpyPastEnd
    return (b.memcpy buf len.toNat).add len.toNat
  else .ok b

def reset (b : FixedBuffer SIZE) : FixedBuffer SIZE := { b with cur := 0 }

/-- The bytes from `data_` to `cur_`. -/
def stored (b : FixedBuffer SIZE) : List Byte :=
  (List.range b.cur).map fun i => b.data[i]?.getD 0

end FixedBuffer

namespace LogStream

variable {SIZE : Nat} (buffer : FixedBuffer SIZE)

/-- `operator<<(bool)`. -/
def putBool (v : Bool) : Except FixedBuffer.Fault (FixedBuffer SIZE) :=
  buffer.append (CharPtr.ofList (if v then [0x31] else [0x30])) 1

/-- `operator<<(char)`. -/
def putChar (v : Byte) : Except FixedBuffer.Fault (FixedBuffer SIZE) :=
  buffer.append (CharPtr.ofList [v]) 1

/-- `operator<<(const char*)`, with the bytes before the final zero. -/
def putCString : Option (List Byte) → Except FixedBuffer.Fault (FixedBuffer SIZE)
  | some str => buffer.append (CharPtr.ofList str) (BitVec.ofNat 64 str.length)
  | none => buffer.append (CharPtr.ofList [0x28, 0x6e, 0x75, 0x6c, 0x6c, 0x29]) 6

/-- `operator<<(const unsigned char*)`. -/
def putUnsignedCString (str : Option (List Byte)) :
    Except FixedBuffer.Fault (FixedBuffer SIZE) :=
  putCString buffer str

/-- `operator<<(const std::string&)`. -/
def putString (v : List Byte) : Except FixedBuffer.Fault (FixedBuffer SIZE) :=
  buffer.append (CharPtr.ofList v) (BitVec.ofNat 64 v.length)

/-- `append`, whose length is an `int`. -/
def append (data : CharPtr) (len : BitVec 32) : Except FixedBuffer.Fault (FixedBuffer SIZE) :=
  buffer.append data (len.signExtend 64)

def resetBuffer : FixedBuffer SIZE := buffer.reset

end LogStream

namespace FixedBuffer

/-- A call on the buffer, direct or through a `LogStream`. -/
inductive Op
  | append (buf : CharPtr) (len : BitVec 64)
  | reset
  | putBool (v : Bool)
  | putChar (v : Byte)
  | putCString (str : Option (List Byte))
  | putUnsignedCString (str : Option (List Byte))
  | putString (v : List Byte)
  | streamAppend (data : CharPtr) (len : BitVec 32)
  | resetBuffer

variable {SIZE : Nat}

def step (b : FixedBuffer SIZE) : Op → Except Fault (FixedBuffer SIZE)
  | .append buf len => b.append buf len
  | .reset => .ok b.reset
  | .putBool v => LogStream.putBool b v
  | .putChar v => LogStream.putChar b v
  | .putCString str => LogStream.putCString b str
  | .putUnsignedCString str => LogStream.putUnsignedCString b str
  | .putString v => LogStream.putString b v
  | .streamAppend data len => LogStream.append b data len
  | .resetBuffer => .ok (LogStream.resetBuffer b)

def run (b : FixedBuffer SIZE) : List Op → Except Fault (FixedBuffer SIZE)
  | [] => .ok b
  | op :: rest => do
      let b ← b.step op
      b.run rest

/-- The arguments with which a call reaches `append`, or none if it resets. -/
def Op.record : Op → Option (CharPtr × BitVec 64)
  | append buf len => some (buf, len)
  | putBool v => some (CharPtr.ofList (if v then [0x31] else [0x30]), 1)
  | putChar v => some (CharPtr.ofList [v], 1)
  | putCString (some str) => some (CharPtr.ofList str, BitVec.ofNat 64 str.length)
  | putCString none => some (CharPtr.ofList [0x28, 0x6e, 0x75, 0x6c, 0x6c, 0x29], 6)
  | putUnsignedCString (some str) => some (CharPtr.ofList str, BitVec.ofNat 64 str.length)
  | putUnsignedCString none => some (CharPtr.ofList [0x28, 0x6e, 0x75, 0x6c, 0x6c, 0x29], 6)
  | putString v => some (CharPtr.ofList v, BitVec.ofNat 64 v.length)
  | streamAppend data len => some (data, len.signExtend 64)
  | reset => none
  | resetBuffer => none

/-- What the buffer is for: a record is added as a whole if it is shorter than the space
that is left, and dropped as a whole otherwise. -/
def accept (SIZE : Nat) (content : List Byte) (op : Op) : List Byte :=
  match op.record with
  | none => []
  | some (buf, len) =>
      if len.toNat < SIZE - content.length then content ++ buf.record len.toNat else content

/-- The content after a list of calls. -/
def accepted (SIZE : Nat) (content : List Byte) (ops : List Op) : List Byte :=
  ops.foldl (accept SIZE) content

/-- The record is not shorter than the space that is left. -/
def Refused (SIZE : Nat) (content : List Byte) (op : Op) : Prop :=
  ∃ buf len, op.record = some (buf, len) ∧ SIZE - content.length ≤ len.toNat

/-- After each call of the run, `cur_` is inside of `data_` and the stored bytes are the
accepted records; a refused record leaves the whole buffer as it was. -/
structure AllOrNothing (b : FixedBuffer SIZE) (ops : List Op) : Prop where
  stored : ∀ pre, pre <+: ops → ∃ b', b.run pre = .ok b' ∧ b'.cur < SIZE ∧
    b'.stored = accepted SIZE b.stored pre
  refused : ∀ pre op, pre ++ [op] <+: ops → Refused SIZE (accepted SIZE b.stored pre) op →
    b.run (pre ++ [op]) = b.run pre

/-- The cast does not make the length of the record look short: it is an `int`, or the
`int` that its low bits make is as large as the space that is left. -/
def Meets (b : FixedBuffer SIZE) (op : Op) : Prop :=
  ∀ buf len, op.record = some (buf, len) → len.toNat ≤ intMax ∨ b.avail ≤ toInt len

/-- Every call of the run meets the condition in the state it finds. -/
def MeetsAll (b : FixedBuffer SIZE) : List Op → Prop
  | [] => True
  | op :: rest => b.Meets op ∧ ∀ b', b.step op = .ok b' → b'.MeetsAll rest

variable {b b' : FixedBuffer SIZE} {buf : CharPtr} {len : BitVec 64}

/-- All calls are calls of `append` or `reset`. -/
theorem step_eq (b : FixedBuffer SIZE) (op : Op) : b.step op =
    match op.record with
    | none => .ok b.reset
    | some (buf, len) => b.append buf len := by
  cases op with
  | append buf len => rfl
  | reset => rfl
  | putBool v => rfl
  | putChar v => rfl
  | putCString str => cases str <;> rfl
  | putUnsignedCString str => cases str <;> rfl
  | putString v => rfl
  | streamAppend data len => rfl
  | resetBuffer => rfl

theorem toInt_of_le (h : len.toNat ≤ intMax) : toInt len = len.toNat := by
  have hlow : (len.setWidth 32).toNat = len.toNat := by
    rw [BitVec.toNat_setWidth]
    apply Nat.mod_eq_of_lt
    simp only [intMax] at h
    omega
  rw [toInt, BitVec.toInt_eq_toNat_of_lt (by simp only [intMax] at h; omega), hlow]

theorem avail_eq (hcur : b.cur ≤ SIZE) (hSIZE : SIZE ≤ intMax) :
    b.avail = (SIZE - b.cur : Nat) := by
  have hword : BitVec.ofInt 64 (SIZE - b.cur) = BitVec.ofNat 64 (SIZE - b.cur) := by
    rw [← Int.ofNat_sub hcur, BitVec.ofInt_natCast]
  have hsmall : SIZE - b.cur ≤ intMax := Nat.le_trans (Nat.sub_le ..) hSIZE
  have hnat : (BitVec.ofNat 64 (SIZE - b.cur)).toNat = SIZE - b.cur := by
    rw [BitVec.toNat_ofNat]
    apply Nat.mod_eq_of_lt
    simp only [intMax] at hsmall
    omega
  have hint : toInt (BitVec.ofNat 64 (SIZE - b.cur)) = (SIZE - b.cur : Nat) := by
    rw [toInt_of_le (by rw [hnat]; exact hsmall), hnat]
  rw [avail, hword, hint]

theorem stored_length (b : FixedBuffer SIZE) : b.stored.length = b.cur := by
  rw [stored, List.length_map, List.length_range]

theorem stored_reset (b : FixedBuffer SIZE) : b.reset.stored = [] := rfl

/-- What is copied behind the stored bytes is stored with them. -/
theorem stored_memcpy {n : Nat} (h : b.cur + n ≤ SIZE) :
    ((b.memcpy buf n).add n).stored = b.stored ++ buf.record n := by
  have hdata : ∀ i, i < SIZE → (b.memcpy buf n).data[i]?.getD 0 =
      if b.cur ≤ i ∧ i < b.cur + n then buf (i - b.cur) else b.data[i]?.getD 0 := by
    intro i hi
    rw [memcpy, Vector.getElem?_ofFn, dif_pos hi, Option.getD_some]
    split
    · rfl
    · rw [Vector.getElem?_eq_getElem hi]
      rfl
  change ((List.range (b.cur + n)).map fun i => (b.memcpy buf n).data[i]?.getD 0) = _
  rw [List.range_add, List.map_append, List.map_map, stored, CharPtr.record]
  congr 1
  · apply List.map_congr_left
    intro i hi
    have hi := List.mem_range.mp hi
    rw [hdata i (by omega), if_neg (by omega)]
  · apply List.map_congr_left
    intro i hi
    have hi := List.mem_range.mp hi
    rw [Function.comp, hdata (b.cur + i) (by omega), if_pos (by omega), Nat.add_sub_cancel_left]

/-- Under the condition the guard compares as natural numbers do. -/
theorem guard_iff (hcur : b.cur < SIZE) (hSIZE : SIZE ≤ intMax)
    (h : len.toNat ≤ intMax ∨ b.avail ≤ toInt len) :
    toInt len < b.avail ↔ len.toNat < SIZE - b.cur := by
  rw [avail_eq (Nat.le_of_lt hcur) hSIZE] at h ⊢
  rcases h with hsmall | hwrapped
  · rw [toInt_of_le hsmall]
    omega
  · constructor
    · intro hlt
      omega
    · intro hlt
      rw [toInt_of_le (by omega)]
      omega

theorem append_of_lt (hcur : b.cur < SIZE) (hSIZE : SIZE ≤ intMax)
    (hfit : len.toNat < SIZE - b.cur) :
    b.append buf len = .ok ((b.memcpy buf len.toNat).add len.toNat) := by
  have hguard := (guard_iff hcur hSIZE (.inl (by omega))).mpr hfit
  rw [append, if_pos hguard, check_bind_of _ (by omega)]
  rfl

theorem append_of_le (hcur : b.cur < SIZE) (hSIZE : SIZE ≤ intMax)
    (h : len.toNat ≤ intMax ∨ b.avail ≤ toInt len) (hlong : SIZE - b.cur ≤ len.toNat) :
    b.append buf len = .ok b := by
  have hguard := mt (guard_iff hcur hSIZE h).mp (Nat.not_lt.mpr hlong)
  rw [append, if_neg hguard]

/-- A call that meets the condition does what the buffer is for. -/
theorem step_spec (hcur : b.cur < SIZE) (hSIZE : SIZE ≤ intMax) {op : Op} (h : b.Meets op) :
    ∃ b', b.step op = .ok b' ∧ b'.cur < SIZE ∧ b'.stored = accept SIZE b.stored op ∧
      (Refused SIZE b.stored op → b' = b) := by
  rw [step_eq]
  cases hrecord : op.record with
  | none =>
      refine ⟨b.reset, rfl, Nat.zero_lt_of_lt hcur, ?_, ?_⟩
      · rw [accept, hrecord, stored_reset]
      · rintro ⟨buf, len, hsome, -⟩
        rw [hrecord] at hsome
        cases hsome
  | some call =>
      obtain ⟨buf, len⟩ := call
      have hmeets := h buf len hrecord
      simp only [accept, hrecord, stored_length]
      by_cases hfit : len.toNat < SIZE - b.cur
      · refine ⟨_, append_of_lt hcur hSIZE hfit, ?_, ?_, ?_⟩
        · change b.cur + len.toNat < SIZE
          omega
        · rw [if_pos hfit, stored_memcpy (by omega)]
        · rintro ⟨buf', len', hsome, hlong⟩
          rw [hrecord] at hsome
          cases hsome
          rw [stored_length] at hlong
          omega
      · refine ⟨b, append_of_le hcur hSIZE hmeets (Nat.le_of_not_lt hfit), hcur, ?_, fun _ => rfl⟩
        rw [if_neg hfit]

/-- A call that ends inside of `data_` met the condition. -/
theorem meets_of_step (hSIZE : SIZE ≤ intMax) {op : Op}
    (hstep : b.step op = .ok b') (hcur' : b'.cur < SIZE) : b.Meets op := by
  intro buf len hrecord
  rw [step_eq, hrecord] at hstep
  by_cases hguard : toInt len < b.avail
  · left
    simp only [append, if_pos hguard] at hstep
    obtain ⟨-, heq⟩ := check_bind_eq_ok.mp hstep
    obtain rfl := Except.ok.inj heq
    change b.cur + len.toNat < SIZE at hcur'
    omega
  · exact .inr (Int.not_lt.mp hguard)

theorem run_append (b : FixedBuffer SIZE) (ops ops' : List Op) :
    b.run (ops ++ ops') = b.run ops >>= fun b' => b'.run ops' := by
  induction ops generalizing b with
  | nil => rfl
  | cons op rest ih =>
      rw [List.cons_append, run, run]
      cases b.step op with
      | error f => rfl
      | ok b' => exact ih b'

theorem MeetsAll.append {ops ops' : List Op} (h : b.MeetsAll (ops ++ ops'))
    (hrun : b.run ops = .ok b') : b'.MeetsAll ops' := by
  induction ops generalizing b with
  | nil =>
      obtain rfl := Except.ok.inj hrun
      exact h
  | cons op rest ih =>
      obtain ⟨b₁, hstep, hrest⟩ := bind_eq_ok.mp hrun
      exact ih (h.2 b₁ hstep) hrest

theorem MeetsAll.of_append {ops ops' : List Op} (h : b.MeetsAll (ops ++ ops')) :
    b.MeetsAll ops := by
  induction ops generalizing b with
  | nil => exact trivial
  | cons op rest ih => exact ⟨h.1, fun b₁ hstep => ih (h.2 b₁ hstep)⟩

/-- A run that meets the condition keeps the accepted records. -/
theorem MeetsAll.run (hcur : b.cur < SIZE) (hSIZE : SIZE ≤ intMax) {ops : List Op}
    (h : b.MeetsAll ops) : ∃ b', b.run ops = .ok b' ∧ b'.cur < SIZE ∧
      b'.stored = accepted SIZE b.stored ops := by
  induction ops generalizing b with
  | nil => exact ⟨b, rfl, hcur, rfl⟩
  | cons op rest ih =>
      obtain ⟨b₁, hstep, hcur₁, hstored, -⟩ := step_spec hcur hSIZE h.1
      obtain ⟨b', hrun, hcur', hstored'⟩ := ih hcur₁ (h.2 b₁ hstep)
      refine ⟨b', bind_eq_ok.mpr ⟨b₁, hstep, hrun⟩, hcur', ?_⟩
      rw [hstored', hstored]
      rfl

theorem MeetsAll.allOrNothing (hcur : b.cur < SIZE) (hSIZE : SIZE ≤ intMax) {ops : List Op}
    (h : b.MeetsAll ops) : b.AllOrNothing ops := by
  constructor
  · rintro pre ⟨post, rfl⟩
    exact h.of_append.run hcur hSIZE
  · rintro pre op ⟨post, rfl⟩ hrefused
    rw [List.append_assoc] at h
    obtain ⟨b₁, hrun, hcur₁, hstored⟩ := h.of_append.run hcur hSIZE
    have hmeets : b₁.Meets op := (h.append hrun).1
    obtain ⟨b₂, hstep, -, -, hsame⟩ := step_spec hcur₁ hSIZE hmeets
    obtain rfl := hsame (hstored ▸ hrefused)
    rw [run_append, hrun]
    change (b₂.step op >>= fun b' => .ok b') = _
    rw [hstep]
    rfl

/-- A run that stays inside of `data_` meets the condition. -/
theorem meetsAll_of_run (hSIZE : SIZE ≤ intMax) {ops : List Op}
    (h : ∀ pre, pre <+: ops → ∃ b', b.run pre = .ok b' ∧ b'.cur < SIZE) : b.MeetsAll ops := by
  induction ops generalizing b with
  | nil => exact trivial
  | cons op rest ih =>
      have hafter : ∀ b₁, b.step op = .ok b₁ → b₁.cur < SIZE := by
        intro b₁ hstep
        obtain ⟨b₂, hrun, hcur₂⟩ := h [op] ⟨rest, rfl⟩
        obtain ⟨b₃, hstep', hlast⟩ := bind_eq_ok.mp hrun
        obtain rfl := Except.ok.inj (hstep.symm.trans hstep')
        obtain rfl := Except.ok.inj hlast
        exact hcur₂
      constructor
      · obtain ⟨b₂, hrun, -⟩ := h [op] ⟨rest, rfl⟩
        obtain ⟨b₁, hstep, -⟩ := bind_eq_ok.mp hrun
        exact meets_of_step hSIZE hstep (hafter b₁ hstep)
      · intro b₁ hstep
        apply ih
        rintro pre ⟨post, rfl⟩
        obtain ⟨b₂, hrun, hcur₂⟩ := h (op :: pre) ⟨post, rfl⟩
        obtain ⟨b₃, hstep', hrest⟩ := bind_eq_ok.mp hrun
        obtain rfl := Except.ok.inj (hstep.symm.trans hstep')
        exact ⟨b₂, hrest, hcur₂⟩

/-- For every size and every run, the buffer never overflows and takes all or nothing of a
record exactly when no cast makes a long record look short. -/
theorem all_or_nothing_iff (hpos : 1 ≤ SIZE) (hSIZE : SIZE ≤ intMax) (memory : Vector Byte SIZE)
    (ops : List Op) : (new memory).AllOrNothing ops ↔ (new memory).MeetsAll ops := by
  constructor
  · intro h
    apply meetsAll_of_run hSIZE
    intro pre hpre
    obtain ⟨b', hrun, hcur, -⟩ := h.stored pre hpre
    exact ⟨b', hrun, hcur⟩
  · exact fun h => h.allOrNothing hpos hSIZE

/-- Lengths that are an `int` meet the condition in every state. -/
theorem meetsAll_of_int {ops : List Op} (h : ∀ op ∈ ops, ∀ buf len,
    op.record = some (buf, len) → len.toNat ≤ intMax) : b.MeetsAll ops := by
  induction ops generalizing b with
  | nil => trivial
  | cons op rest ih =>
      refine ⟨fun buf len hrecord => .inl (h op (List.mem_cons_self ..) buf len hrecord), ?_⟩
      intro b' _
      exact ih fun op' hop' => h op' (List.mem_cons_of_mem _ hop')

/-- Of a buffer of eight bytes the second record needs one too many; a reset follows. -/
def eightByteCalls : List Op :=
  [.putBool true, .putString [1, 2, 3, 4, 5, 6, 7], .putCString (some [0x61, 0x62]),
    .resetBuffer, .putChar 0x63]

theorem eight_bytes_all_or_nothing : ∃ b₁ b₂ : FixedBuffer 8,
    (new (Vector.replicate 8 0)).run (eightByteCalls.take 3) = .ok b₁ ∧
      b₁.stored = [0x31, 0x61, 0x62] ∧
    (new (Vector.replicate 8 0)).run (eightByteCalls.take 2) =
      (new (Vector.replicate 8 0)).run (eightByteCalls.take 1) ∧
    (new (Vector.replicate 8 0)).run eightByteCalls = .ok b₂ ∧ b₂.stored = [0x63] := by
  have hmeets : (new (Vector.replicate 8 0)).MeetsAll eightByteCalls := by
    apply meetsAll_of_int
    simp only [eightByteCalls, List.forall_mem_cons]
    refine ⟨?_, ?_, ?_, ?_, ?_, ?_⟩
    · rintro buf len ⟨⟩
      decide
    · rintro buf len ⟨⟩
      decide
    · rintro buf len ⟨⟩
      decide
    · rintro buf len ⟨⟩
    · rintro buf len ⟨⟩
      decide
    · exact fun op hop => absurd hop List.not_mem_nil
  have hexact := (all_or_nothing_iff (by decide) (by decide) (Vector.replicate 8 0)
    eightByteCalls).mpr hmeets
  obtain ⟨b₁, hrun₁, -, hstored₁⟩ := hexact.stored _ (List.take_prefix 3 _)
  obtain ⟨b₂, hrun₂, -, hstored₂⟩ := hexact.stored _ (List.prefix_refl _)
  refine ⟨b₁, b₂, hrun₁, hstored₁, ?_, hrun₂, hstored₂⟩
  apply hexact.refused [.putBool true] (.putString [1, 2, 3, 4, 5, 6, 7])
  · exact ⟨eightByteCalls.drop 2, rfl⟩
  · exact ⟨_, _, rfl, by decide⟩

/-- A record of 2 ^ 31 bytes has a negative length as an `int`, and runs over the end. -/
theorem large_record_overflows :
    (new (Vector.replicate 4000 0)).run [.append (fun _ => 0) 0x80000000] =
      .error .memcpyPastEnd ∧
    ¬ (new (Vector.replicate 4000 0)).AllOrNothing [.append (fun _ => 0) 0x80000000] := by
  have hrun : (new (Vector.replicate 4000 0)).run [.append (fun _ => 0) 0x80000000] =
      .error .memcpyPastEnd := rfl
  refine ⟨hrun, fun h => ?_⟩
  obtain ⟨b', hok, -⟩ := h.stored _ (List.prefix_refl _)
  rw [hrun] at hok
  cases hok

end FixedBuffer

end Yatwb
