import QcloudIot.Lib.Queue
import QcloudIot.Lib.Calls

/-!
# The ring buffer

`utils_ringbuff.c`. Both positions are those of the last byte written and read, so one moves before
the byte is; equal positions are an empty buffer, and one byte of it is never used.

* `push_step`, `pop_step`: one turn of each loop adds a byte at the end and takes the first one;
* `pushLoop_spec`, `popLoop_spec`: the loops;
* **`ringbuff_fifo`**: over any sequence of calls the buffer is a queue of `size - 1` bytes.
-/

namespace QcloudIot.Utils

open Lib

def ringbuffOk : Int := 0
def ringbuffFull : Int := -4
def ringbuffTooShort : Int := -5

/-- `sRingbuff`. -/
structure Ringbuff where
  size : UInt32
  readpoint : UInt32
  writepoint : UInt32
  buffer : List UInt8
  full : Bool
  deriving Repr, DecidableEq

/-- `memset(buffer, 0, size)`. -/
def clear (buffer : List UInt8) (size : UInt32) : List UInt8 :=
  List.replicate size.toNat 0 ++ buffer.drop size.toNat

def ringBuffInit (buff : List UInt8) (size : UInt32) : Ringbuff :=
  { buffer := clear buff size, size := size, readpoint := 0, writepoint := 0, full := false }

def ringBuffFlush (rb : Ringbuff) : Ringbuff :=
  { rb with readpoint := 0, writepoint := 0, buffer := clear rb.buffer rb.size, full := false }

/-- The byte put into the buffer where there is room. -/
def Ringbuff.put (rb : Ringbuff) (b : UInt8) : Ringbuff :=
  let writepoint := if rb.writepoint < rb.size - 1 then rb.writepoint + 1 else 0
  { rb with writepoint := writepoint, buffer := rb.buffer.set writepoint.toNat b }

/-- The loop of `ring_buff_push_data` over the bytes still to come. -/
def pushLoop (rb : Ringbuff) : List UInt8 → Ringbuff × Int
  | [] => (rb, ringbuffOk)
  | b :: bs =>
    if (rb.writepoint + 1) % rb.size = rb.readpoint then ({ rb with full := true }, ringbuffFull)
    else pushLoop (rb.put b) bs

/-- `ring_buff_push_data`; `len` is compared as an unsigned number with the size. -/
def ringBuffPushData (rb : Ringbuff) (pData : List UInt8) (len : Int32) : Ringbuff × Int :=
  if len.toUInt32 > rb.size then (rb, ringbuffTooShort)
  else pushLoop rb (pData.take len.toInt.toNat)

/-- The buffer with the read position moved on. -/
def Ringbuff.skip (rb : Ringbuff) : Ringbuff :=
  { rb with readpoint := if rb.readpoint = rb.size - 1 then 0 else rb.readpoint + 1 }

/-- The loop of `ring_buff_pop_data`, for `n` more bytes: the bytes written. -/
def popLoop (rb : Ringbuff) : Nat → Ringbuff × List UInt8
  | 0 => (rb, [])
  | n + 1 =>
    if rb.writepoint = rb.readpoint then (rb, [])
    else
      let rest := popLoop rb.skip n
      (rest.1, rb.skip.buffer.getD rb.skip.readpoint.toNat 0 :: rest.2)

/-- `ring_buff_pop_data`: what it returns, and the bytes written to `pData`. -/
def ringBuffPopData (rb : Ringbuff) (len : Int32) : Ringbuff × Int × List UInt8 :=
  if len.toUInt32 > rb.size then (rb, ringbuffTooShort, [])
  else
    let (rb, bytes) := popLoop rb len.toInt.toNat
    (rb, bytes.length, bytes)

/-! ## What the buffer holds -/

namespace Ringbuff

/-- Both positions are in a buffer of the size. -/
structure Valid (rb : Ringbuff) : Prop where
  size : 2 ≤ rb.size.toNat
  read : rb.readpoint.toNat < rb.size.toNat
  write : rb.writepoint.toNat < rb.size.toNat
  buffer : rb.buffer.length = rb.size.toNat

/-- The bytes between the positions. -/
def count (rb : Ringbuff) : Nat :=
  if rb.readpoint.toNat ≤ rb.writepoint.toNat then rb.writepoint.toNat - rb.readpoint.toNat
  else rb.writepoint.toNat + rb.size.toNat - rb.readpoint.toNat

def contents (rb : Ringbuff) : List UInt8 :=
  window rb.buffer (rb.readpoint.toNat + 1) rb.count

variable {rb : Ringbuff}

theorem Valid.count_lt (h : rb.Valid) : rb.count < rb.size.toNat := by
  have hread := h.read
  have hwrite := h.write
  unfold count
  split <;> omega

theorem Valid.length_contents (h : rb.Valid) : rb.contents.length = rb.count := by
  rw [contents, length_window _ (by rw [h.buffer]; exact h.count_lt.le)]

/-- The position after one: at the end of the buffer it is the first. -/
theorem succ_mod {p n : Nat} (h : p < n) : (p + 1) % n = if p + 1 = n then 0 else p + 1 := by
  split
  · rename_i heq
    rw [heq, Nat.mod_self]
  · exact Nat.mod_eq_of_lt (by omega)

theorem toNat_pred {size : UInt32} (h : 2 ≤ size.toNat) : (size - 1).toNat = size.toNat - 1 := by
  rw [UInt32.toNat_sub_of_le _ _ (by rw [UInt32.le_iff_toNat_le]; exact (by omega : 1 ≤ size.toNat))]
  rfl

theorem toNat_next {size point : UInt32} (h : point.toNat < size.toNat) :
    (point + 1).toNat = point.toNat + 1 := by
  have hsize := size.toNat_lt
  rw [UInt32.toNat_add, Nat.mod_eq_of_lt]
  · rfl
  · exact (by omega : point.toNat + 1 < 2 ^ 32)

/-- The write position moves to the next one. -/
theorem toNat_put (h : rb.Valid) (b : UInt8) :
    (rb.put b).writepoint.toNat = (rb.writepoint.toNat + 1) % rb.size.toNat := by
  have hwrite := h.write
  have hpred := toNat_pred h.size
  rw [succ_mod h.write, put]
  simp only [UInt32.lt_iff_toNat_lt, hpred]
  split
  · rw [toNat_next h.write, if_neg (by omega)]
  · rw [if_pos (by omega)]
    rfl

theorem toNat_skip (h : rb.Valid) :
    rb.skip.readpoint.toNat = (rb.readpoint.toNat + 1) % rb.size.toNat := by
  have hread := h.read
  have hpred := toNat_pred h.size
  rw [succ_mod h.read, skip]
  simp only [← UInt32.toNat_inj, hpred]
  split
  · rw [if_pos (by omega)]
    rfl
  · rw [toNat_next h.read, if_neg (by omega)]

/-- The buffer is full when the next position to write is the read position. -/
theorem full_iff (h : rb.Valid) :
    (rb.writepoint + 1) % rb.size = rb.readpoint ↔ rb.count = rb.size.toNat - 1 := by
  have hsize := h.size
  have hread := h.read
  have hwrite := h.write
  rw [← UInt32.toNat_inj, UInt32.toNat_mod, toNat_next h.write, succ_mod h.write, count]
  split <;> split <;> omega

theorem empty_iff (h : rb.Valid) : rb.writepoint = rb.readpoint ↔ rb.count = 0 := by
  have hread := h.read
  have hwrite := h.write
  rw [← UInt32.toNat_inj, count]
  split <;> omega

/-- **One byte pushed** is added at the end. -/
theorem push_step (h : rb.Valid) (hroom : rb.count ≠ rb.size.toNat - 1) (b : UInt8) :
    (rb.put b).Valid ∧ (rb.put b).contents = rb.contents ++ [b] := by
  have hsize := h.size
  have hread := h.read
  have hwrite := h.write
  have hbuffer := h.buffer
  have hput := toNat_put h b
  have hlt : (rb.put b).writepoint.toNat < rb.size.toNat := by
    rw [hput]
    exact Nat.mod_lt _ (by omega)
  have hcount : (rb.put b).count = rb.count + 1 := by
    rw [succ_mod h.write] at hput
    unfold count at hroom ⊢
    rw [hput]
    change (if rb.readpoint.toNat ≤ _ then _ - rb.readpoint.toNat
      else _ + rb.size.toNat - rb.readpoint.toNat) = _
    split_ifs at hroom ⊢ <;> omega
  -- the byte goes behind the window
  have hindex : (rb.put b).writepoint.toNat =
      (rb.count + (rb.readpoint.toNat + 1)) % rb.buffer.length := by
    rw [hput, hbuffer, count]
    split
    · congr 1
      omega
    · rw [← Nat.add_mod_right]
      congr 1
      omega
  refine ⟨⟨hsize, hread, hlt, ?_⟩, ?_⟩
  · change (rb.buffer.set _ b).length = _
    rw [List.length_set, hbuffer]
    rfl
  · have hwindow := window_set (rb.readpoint.toNat + 1) (by rw [hbuffer]; exact h.count_lt) b
    rw [← hindex] at hwindow
    rw [contents, hcount]
    exact hwindow

/-- **One byte popped** is the first one. -/
theorem pop_step (h : rb.Valid) (hsome : rb.count ≠ 0) :
    rb.skip.Valid ∧
      rb.contents = rb.skip.buffer.getD rb.skip.readpoint.toNat 0 :: rb.skip.contents := by
  have hsize := h.size
  have hread := h.read
  have hwrite := h.write
  have hbuffer := h.buffer
  have hskip := toNat_skip h
  have hlt : rb.skip.readpoint.toNat < rb.size.toNat := by
    rw [hskip]
    exact Nat.mod_lt _ (by omega)
  have hcount : rb.count = rb.skip.count + 1 := by
    rw [succ_mod h.read] at hskip
    unfold count at hsome ⊢
    rw [hskip]
    change _ = (if _ ≤ rb.writepoint.toNat then rb.writepoint.toNat - _
      else rb.writepoint.toNat + rb.size.toNat - _) + 1
    split_ifs at hsome ⊢ <;> omega
  refine ⟨⟨hsize, hlt, hwrite, hbuffer⟩, ?_⟩
  obtain ⟨x, hx, hwindow⟩ := window_cons rb.buffer (rb.readpoint.toNat + 1)
    (by have := h.count_lt; omega : rb.skip.count < rb.buffer.length)
  have hfirst : rb.skip.buffer.getD rb.skip.readpoint.toNat 0 = x := by
    rw [List.getD_eq_getElem?_getD, hskip, ← hbuffer]
    change (rb.buffer[_]?).getD 0 = x
    rw [hx]
    rfl
  have hrest : window rb.buffer (rb.readpoint.toNat + 1 + 1) rb.skip.count = rb.skip.contents := by
    rw [contents, hskip, ← hbuffer, ← window_mod rb.skip.buffer]
    change _ = window rb.buffer (((rb.readpoint.toNat + 1) % rb.buffer.length + 1) %
      rb.buffer.length) _
    rw [Nat.mod_add_mod, window_mod]
  rw [contents, hcount, hwindow, hfirst, hrest]

theorem Valid.contents_le (h : rb.Valid) : rb.contents.length ≤ rb.size.toNat - 1 := by
  have hcount := h.count_lt
  rw [h.length_contents]
  omega

end Ringbuff

/-- **The bytes pushed** are queued as far as there is room. -/
theorem pushLoop_spec {rb : Ringbuff} (h : rb.Valid) (bs : List UInt8) :
    (pushLoop rb bs).1.Valid ∧ (pushLoop rb bs).1.size = rb.size ∧
      (pushLoop rb bs).1.contents = enqueue (rb.size.toNat - 1) rb.contents bs ∧
      (pushLoop rb bs).2 =
        if rb.size.toNat - 1 - rb.contents.length < bs.length then ringbuffFull else ringbuffOk := by
  induction bs generalizing rb with
  | nil => exact ⟨h, rfl, by simp [pushLoop, enqueue], rfl⟩
  | cons b bs ih =>
    rw [pushLoop]
    split
    · rename_i hfull
      rw [Ringbuff.full_iff h, ← h.length_contents] at hfull
      refine ⟨⟨h.size, h.read, h.write, h.buffer⟩, rfl, ?_, ?_⟩
      · rw [enqueue_full (by rw [hfull])]
        rfl
      · rw [if_pos (by rw [List.length_cons]; omega)]
    · rename_i hroom
      rw [Ringbuff.full_iff h] at hroom
      obtain ⟨hvalid, hcontents⟩ := Ringbuff.push_step h hroom b
      obtain ⟨hvalid', hsize, hqueue, hcode⟩ := ih hvalid
      have hput : (rb.put b).size = rb.size := rfl
      have hle := h.contents_le
      rw [← h.length_contents] at hroom
      refine ⟨hvalid', hsize, ?_, ?_⟩
      · rw [hqueue, hput, hcontents, ← enqueue_cons (by omega)]
      · rw [hcode, hput, hcontents, List.length_append, List.length_singleton, List.length_cons]
        refine if_congr ?_ rfl rfl
        omega

/-- **The bytes popped** are the first ones of the queue. -/
theorem popLoop_spec {rb : Ringbuff} (h : rb.Valid) (n : Nat) :
    (popLoop rb n).1.Valid ∧ (popLoop rb n).1.size = rb.size ∧
      (popLoop rb n).1.contents = rb.contents.drop n ∧ (popLoop rb n).2 = rb.contents.take n := by
  induction n generalizing rb with
  | zero => exact ⟨h, rfl, rfl, rfl⟩
  | succ n ih =>
    rw [popLoop]
    split
    · rename_i hempty
      rw [Ringbuff.empty_iff h, ← h.length_contents] at hempty
      have hnil : rb.contents = [] := List.length_eq_zero_iff.mp hempty
      rw [hnil]
      exact ⟨h, rfl, List.drop_nil.symm, List.take_nil.symm⟩
    · rename_i hsome
      rw [Ringbuff.empty_iff h] at hsome
      obtain ⟨hvalid, hcontents⟩ := Ringbuff.pop_step h hsome
      obtain ⟨hvalid', hsize, hqueue, hbytes⟩ := ih hvalid
      refine ⟨hvalid', hsize, ?_, ?_⟩
      · rw [hcontents, List.drop_succ_cons, ← hqueue]
      · rw [hcontents, List.take_succ_cons, ← hbytes]

/-! ## Sequences of calls -/

/-- A call: the first `len` of some bytes pushed, `len` bytes popped, or a flush. -/
inductive RingCall where
  | push (pData : List UInt8) (len : Int32)
  | pop (len : Int32)
  | flush

/-- What a call does to the buffer, what it returns, and the bytes it writes. -/
def Ringbuff.call (rb : Ringbuff) : RingCall → Ringbuff × Int × List UInt8
  | .push pData len => let (rb, rc) := ringBuffPushData rb pData len; (rb, rc, [])
  | .pop len => ringBuffPopData rb len
  | .flush => (ringBuffFlush rb, ringbuffOk, [])

/-- A queue of bytes with all that has been put into it and all that has left it. -/
structure ByteQueue where
  held : List UInt8
  stored : List UInt8
  gone : List UInt8

/-- The queue a ring buffer of the size is to be, of `size - 1` bytes: a push takes the bytes there
is room for, a pop gives the first ones, a flush loses what is held, and a longer request than the
size is turned down. -/
def ByteQueue.call (size : UInt32) (q : ByteQueue) : RingCall → ByteQueue × Int × List UInt8
  | .push pData len =>
    if size < len.toUInt32 then (q, ringbuffTooShort, [])
    else
      let bytes := pData.take len.toInt.toNat
      let room := size.toNat - 1 - q.held.length
      ({ q with held := enqueue (size.toNat - 1) q.held bytes, stored := q.stored ++ bytes.take room },
        if room < bytes.length then ringbuffFull else ringbuffOk, [])
  | .pop len =>
    if size < len.toUInt32 then (q, ringbuffTooShort, [])
    else
      let n := len.toInt.toNat
      ({ q with held := q.held.drop n, gone := q.gone ++ q.held.take n },
        (min n q.held.length : Nat), q.held.take n)
  | .flush => ({ q with held := [], gone := q.gone ++ q.held }, ringbuffOk, [])

/-- What has been stored is what has left and what is held, in this order. -/
structure ByteQueue.Kept (size : UInt32) (q : ByteQueue) : Prop where
  order : q.stored = q.gone ++ q.held
  room : q.held.length ≤ size.toNat - 1

theorem ByteQueue.kept_call {size : UInt32} {q : ByteQueue} (h : q.Kept size) (c : RingCall) :
    (q.call size c).1.Kept size := by
  obtain ⟨horder, hroom⟩ := h
  cases c with
  | push pData len =>
    unfold ByteQueue.call
    dsimp only
    split
    · exact ⟨horder, hroom⟩
    · refine ⟨?_, length_enqueue_le hroom _⟩
      rw [horder, enqueue, List.append_assoc]
  | pop len =>
    unfold ByteQueue.call
    dsimp only
    split
    · exact ⟨horder, hroom⟩
    · refine ⟨?_, ?_⟩
      · rw [horder, List.append_assoc, List.take_append_drop]
      · rw [List.length_drop]
        omega
  | flush =>
    have hgone : q.stored = q.gone ++ q.held ++ [] := by rw [horder, List.append_nil]
    exact ⟨hgone, Nat.zero_le _⟩

/-- The ring buffer holds what the queue does. -/
structure Ringbuff.Is (size : UInt32) (rb : Ringbuff) (q : ByteQueue) : Prop where
  valid : rb.Valid
  size : rb.size = size
  held : rb.contents = q.held

theorem length_clear {buffer : List UInt8} {size : UInt32} (h : buffer.length = size.toNat) :
    (clear buffer size).length = size.toNat := by
  rw [clear, List.length_append, List.length_replicate, List.length_drop]
  omega

/-- Both positions at the beginning: nothing is held. -/
theorem Ringbuff.is_empty {rb : Ringbuff} (h : rb.Valid) (heq : rb.writepoint = rb.readpoint) :
    rb.contents = [] := by
  rw [Ringbuff.empty_iff h] at heq
  rw [← List.length_eq_zero_iff, h.length_contents, heq]

theorem ringBuffInit_is {size : UInt32} {buff : List UInt8} (hsize : 2 ≤ size.toNat)
    (hbuff : buff.length = size.toNat) : (ringBuffInit buff size).Is size ⟨[], [], []⟩ := by
  have hpos : 0 < size.toNat := by omega
  have hvalid : (ringBuffInit buff size).Valid := ⟨hsize, hpos, hpos, length_clear hbuff⟩
  exact ⟨hvalid, rfl, Ringbuff.is_empty hvalid rfl⟩

/-- **One call** of the ring buffer is one of the queue. -/
theorem Ringbuff.is_call {size : UInt32} {rb : Ringbuff} {q : ByteQueue} (h : rb.Is size q)
    (c : RingCall) :
    (rb.call c).1.Is size (q.call size c).1 ∧ (rb.call c).2 = (q.call size c).2 := by
  obtain ⟨hvalid, rfl, hheld⟩ := h
  cases c with
  | push pData len =>
    unfold Ringbuff.call ByteQueue.call ringBuffPushData
    dsimp only
    split
    · exact ⟨⟨hvalid, rfl, hheld⟩, rfl⟩
    · obtain ⟨hvalid', hsize, hqueue, hcode⟩ := pushLoop_spec hvalid (pData.take len.toInt.toNat)
      rw [hheld] at hqueue hcode
      exact ⟨⟨hvalid', hsize, hqueue⟩, by rw [hcode]⟩
  | pop len =>
    unfold Ringbuff.call ByteQueue.call ringBuffPopData
    dsimp only
    split
    · exact ⟨⟨hvalid, rfl, hheld⟩, rfl⟩
    · obtain ⟨hvalid', hsize, hqueue, hbytes⟩ := popLoop_spec hvalid len.toInt.toNat
      rw [hheld] at hqueue hbytes
      exact ⟨⟨hvalid', hsize, hqueue⟩, by rw [hbytes, List.length_take]⟩
  | flush =>
    have hpos : 0 < rb.size.toNat := by
      have := hvalid.size
      omega
    have hflush : (ringBuffFlush rb).Valid :=
      ⟨hvalid.size, hpos, hpos, length_clear hvalid.buffer⟩
    exact ⟨⟨hflush, rfl, Ringbuff.is_empty hflush rfl⟩, rfl⟩

/-- **The ring buffer is a queue** of `size - 1` bytes: every call is answered as by the queue, the
bytes held are its own, and what was stored leaves it once and in order. -/
theorem ringbuff_fifo {size : UInt32} {buff : List UInt8} (hsize : 2 ≤ size.toNat)
    (hbuff : buff.length = size.toNat) (cs : List RingCall) :
    let rb := calls Ringbuff.call (ringBuffInit buff size) cs
    let q := calls (ByteQueue.call size) ⟨[], [], []⟩ cs
    rb.2 = q.2 ∧ rb.1.contents = q.1.held ∧ q.1.stored = q.1.gone ++ q.1.held ∧
      q.1.held.length ≤ size.toNat - 1 := by
  intro rb q
  obtain ⟨his, hanswers⟩ := calls_simulation (Ringbuff.Is size) (fun _ _ c h => Ringbuff.is_call h c)
    cs (ringBuffInit_is hsize hbuff)
  have hkept : q.1.Kept size := calls_invariant (ByteQueue.Kept size)
    (fun _ c h => ByteQueue.kept_call h c) cs ⟨rfl, Nat.zero_le _⟩
  exact ⟨hanswers, his.held, hkept.order, hkept.room⟩

/-- A buffer of three bytes holds two: of three bytes pushed the last is turned down, twice, with the
positions going round the end in between. -/
theorem ringbuff_fifo_three :
    (calls Ringbuff.call (ringBuffInit [7, 7, 7] 3)
      [.push [1, 2, 3] 3, .pop 1, .push [4, 5] 2, .pop 3, .pop 4]).2 =
        [(ringbuffFull, []), (1, [1]), (ringbuffFull, []), (2, [2, 4]), (ringbuffTooShort, [])] ∧
      (calls Ringbuff.call (ringBuffInit [7, 7, 7] 3)
        [.push [1, 2, 3] 3, .pop 1, .push [4, 5] 2, .pop 3, .pop 4]).1.contents = [] :=
  ⟨by decide, (ringbuff_fifo (by decide) rfl
    [.push [1, 2, 3] 3, .pop 1, .push [4, 5] 2, .pop 3, .pop 4]).2.1.trans rfl⟩

end QcloudIot.Utils
