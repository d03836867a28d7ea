import QcloudIot.Lib.Bytes
import QcloudIot.Lib.Varint
import QcloudIot.Mqtt.Transport

/-!
# The remaining length, written and read

`mqtt_write_packet_rem_len` writes a number as the shortest base-128 encoding
(`mqttWritePacketRemLen_varint`), and `mqtt_read_packet_rem_len_form_buf` reads such an encoding
back (`readRemLen_varint`).

* `readRemLen_error_iff`: what the reader refuses;
* `decodeRemLenNet_ok`, `decodeRemLenNet_error`: the reader of the network does what the reader of
  a buffer does with the same bytes;
* **`remLen_codec`**: the writer and the two readers.
-/

namespace QcloudIot.Mqtt

open Lib

/-! ## Writing -/

theorem writeRemLenLoop_varint : ∀ {fuel n : Nat}, 1 ≤ fuel → n < 128 ^ fuel →
    Varint (writeRemLenLoop fuel n) n := by
  intro fuel
  induction fuel with
  | zero => intro n h; exact absurd h (Nat.not_succ_le_zero 0)
  | succ fuel ih =>
    intro n _ hn
    rw [writeRemLenLoop]
    split
    · rename_i hpos
      have hfuel : 1 ≤ fuel := by
        by_contra h0
        obtain rfl : fuel = 0 := by omega
        omega
      have hdiv : n / 128 < 128 ^ fuel := by
        rw [Nat.div_lt_iff_lt_mul (by omega), ← Nat.pow_succ]
        exact hn
      have hdigit : (UInt8.ofNat (n % 128 + 128)).toNat = n % 128 + 128 := by
        rw [UInt8.toNat_ofNat']
        omega
      exact .more (by omega) (ih hfuel hdiv) (by omega) (by omega)
    · have hdigit : (UInt8.ofNat (n % 128)).toNat = n % 128 := by
        rw [UInt8.toNat_ofNat']
        omega
      exact .last (by omega) (by omega)

/-- **The encoding written is the shortest one.** -/
theorem mqttWritePacketRemLen_varint (n : UInt32) : Varint (mqttWritePacketRemLen n) n.toNat := by
  have hlt := n.toNat_lt
  exact writeRemLenLoop_varint (by omega) (by omega)

/-- So it is the one any other writer of shortest encodings writes. -/
theorem varint_eq_written {bs : Bytes} {n : Nat} (h : Varint bs n) (hn : n < 2 ^ 32) :
    bs = mqttWritePacketRemLen (UInt32.ofNat n) := by
  have hw := mqttWritePacketRemLen_varint (UInt32.ofNat n)
  rw [UInt32.toNat_ofNat', Nat.mod_eq_of_lt hn] at hw
  exact h.unique hw

/-- A remaining length takes one to four bytes. -/
theorem remLen_length {bs : Bytes} {n : Nat} (h : Varint bs n) (hn : n < 2 ^ 28) :
    1 ≤ bs.length ∧ bs.length ≤ maxNoOfRemainingLengthBytes :=
  ⟨h.length_pos, h.length_le (by decide) (by simpa [maxNoOfRemainingLengthBytes] using hn)⟩

/-! ## Reading -/

theorem Mem.load_succ (m : Mem) (p n : Nat) : m.load p (n + 1) = m p :: m.load (p + 1) n := by
  unfold Mem.load
  rw [List.range_succ_eq_map, List.map_cons, List.map_map]
  congr 1
  refine List.map_congr_left fun i _ => ?_
  simp only [Function.comp_apply]
  congr 1
  omega

theorem Mem.load_add (m : Mem) (p a b : Nat) :
    m.load p (a + b) = m.load p a ++ m.load (p + a) b := by
  induction a generalizing p with
  | zero => simp [Mem.load]
  | succ a ih =>
    rw [Nat.add_right_comm, Mem.load_succ, Mem.load_succ, ih (p + 1), List.cons_append,
      Nat.add_assoc p 1 a, Nat.add_comm 1 a]

/-- A run of bytes is read as its two parts are. -/
theorem Mem.load_append_iff {m : Mem} {p : Nat} {as bs : Bytes} :
    m.load p (as ++ bs).length = as ++ bs ↔
      m.load p as.length = as ∧ m.load (p + as.length) bs.length = bs := by
  have hlen : (m.load p as.length).length = as.length := by simp [Mem.load]
  rw [List.length_append, Mem.load_add]
  constructor
  · exact fun h => List.append_inj' h (by simp [Mem.load])
  · rintro ⟨ha, hb⟩
    rw [ha, hb]

/-- The loop reads an encoding at weight `m`. -/
theorem decodeRemLenLoop_varint {buf : Mem} {bs : Bytes} {n : Nat} (h : Varint bs n) :
    ∀ {left p m v len : Nat}, buf.load p bs.length = bs → bs.length ≤ left →
      decodeRemLenLoop buf left p m v len = .ok (v + n * m, len + bs.length) := by
  induction h with
  | @last b n hb hn =>
    intro left p m v len hload hleft
    obtain ⟨left, rfl⟩ : ∃ k, left = k + 1 := ⟨left - 1, by simp at hleft; omega⟩
    rw [List.length_singleton, Mem.load_succ] at hload
    have hbuf : buf p = b := (List.cons.inj hload).1
    rw [decodeRemLenLoop]
    simp only [hbuf]
    rw [if_neg (by rw [and_128_ne_zero]; omega), and_127_eq, Nat.mod_eq_of_lt hb, ← hn]
    rfl
  | @more b bs k n hb h hk hn ih =>
    intro left p m v len hload hleft
    obtain ⟨left, rfl⟩ : ∃ k, left = k + 1 := ⟨left - 1, by simp at hleft; omega⟩
    rw [List.length_cons, Mem.load_succ] at hload
    obtain ⟨hbuf, hrest⟩ := List.cons.inj hload
    have hlt := b.toNat_lt
    have hdigit : b.toNat % 128 = b.toNat - 128 := by omega
    rw [decodeRemLenLoop]
    simp only [hbuf]
    rw [if_pos ((and_128_ne_zero b).mpr hb), and_127_eq, hdigit,
      ih hrest (by simpa using hleft), hn, List.length_cons]
    simp only [Except.ok.injEq, Prod.mk.injEq]
    exact ⟨by ring, by omega⟩

/-- **The encoding is read back.** -/
theorem readRemLen_varint {buf : Mem} {p : Nat} {bs : Bytes} {n : Nat} (h : Varint bs n)
    (hn : n < 2 ^ 28) (hload : buf.load p bs.length = bs) :
    mqttReadPacketRemLenFormBuf buf p = .ok (n, bs.length) := by
  rw [mqttReadPacketRemLenFormBuf, decodeRemLenLoop_varint h hload (remLen_length h hn).2]
  simp

/-- Of `k` bytes a loop at weight `m` reads less than `m · 128^k`. -/
theorem decodeRemLenLoop_lt {buf : Mem} : ∀ {left p m v len n k : Nat},
    decodeRemLenLoop buf left p m v len = .ok (n, len + k) → n + m ≤ v + m * 128 ^ k := by
  intro left
  induction left with
  | zero => intro p m v len n k h; simp [decodeRemLenLoop] at h
  | succ left ih =>
    intro p m v len n k h
    have hc := and_127_lt (buf p)
    have hcm : (buf p &&& 127).toNat * m + m ≤ m * 128 := by nlinarith
    rw [decodeRemLenLoop] at h
    split at h
    · obtain ⟨-, hlt, -⟩ := decodeRemLenLoop_le h
      obtain ⟨k, rfl⟩ : ∃ i, k = i + 1 := ⟨k - 1, by omega⟩
      rw [← Nat.add_assoc, Nat.add_right_comm] at h
      have hn := ih h
      have hpow : m * 128 * 128 ^ k = m * 128 ^ (k + 1) := by rw [Nat.pow_succ]; ring
      rw [hpow] at hn
      omega
    · obtain ⟨hn, hk⟩ := Prod.mk.inj (Except.ok.inj h)
      obtain rfl : k = 1 := by omega
      rw [Nat.pow_one]
      omega

/-- No encoding of a number is shorter than the one written. -/
theorem written_length_le {buf : Mem} {p k : Nat} {n : UInt32}
    (h : mqttReadPacketRemLenFormBuf buf p = .ok (n.toNat, k)) :
    (mqttWritePacketRemLen n).length ≤ k := by
  obtain ⟨-, hk, -⟩ := decodeRemLen_lt h
  have hn : n.toNat + 1 ≤ 0 + 1 * 128 ^ k := by
    unfold mqttReadPacketRemLenFormBuf at h
    exact decodeRemLenLoop_lt (by rw [h, Nat.zero_add])
  exact (mqttWritePacketRemLen_varint n).length_le hk (by omega)

/-- The loop refuses what goes on behind the last byte it may read. -/
theorem decodeRemLenLoop_error_iff {buf : Mem} : ∀ {left p m v len : Nat},
    (∃ rc, decodeRemLenLoop buf left p m v len = .error rc) ↔
      ∀ i < left, 128 ≤ (buf (p + i)).toNat := by
  intro left
  induction left with
  | zero => intro p m v len; simp [decodeRemLenLoop]
  | succ left ih =>
    intro p m v len
    rw [decodeRemLenLoop]
    split
    · rename_i hmore
      have hp := (and_128_ne_zero (buf p)).mp hmore
      rw [ih]
      constructor
      · rintro h (- | i) hi
        · exact hp
        · have hnext := h i (by omega)
          rwa [Nat.add_assoc, Nat.add_comm 1 i] at hnext
      · intro h i hi
        have hnext := h (i + 1) (by omega)
        rwa [Nat.add_comm i 1, ← Nat.add_assoc] at hnext
    · rename_i hlast
      rw [and_128_ne_zero] at hlast
      refine iff_of_false (by simp) fun h => hlast ?_
      exact h 0 (Nat.succ_pos left)

theorem readRemLen_error_iff {buf : Mem} {p : Nat} :
    (∃ rc, mqttReadPacketRemLenFormBuf buf p = .error rc) ↔
      ∀ i < maxNoOfRemainingLengthBytes, 128 ≤ (buf (p + i)).toNat :=
  decodeRemLenLoop_error_iff

/-! ## The two readers -/

/-- The reads of a network that hands out these bytes, one a read. -/
def deliver (bs : Bytes) : NetReads := bs.map fun b => (.retSuccess, [b])

variable {buf : Mem} {left p m v len k j value : Nat} {rc : ReturnCode} (rest : NetReads)

/-- The reader takes the byte at hand and, when it has the top bit, goes on with the next. -/
theorem decodeRemLenNet_succ : decodeRemLenNet (left + 1) m v (deliver (buf.load p (j + 1)) ++ rest) =
    if buf p &&& (128 : UInt8) ≠ 0 then
      decodeRemLenNet left (m * 128) (v + (buf p &&& (127 : UInt8)).toNat * m)
        (deliver (buf.load (p + 1) j) ++ rest)
    else (.ok (v + (buf p &&& (127 : UInt8)).toNat * m), deliver (buf.load (p + 1) j) ++ rest) := by
  rw [Mem.load_succ]
  rfl

theorem decodeRemLenNet_ok (h : decodeRemLenLoop buf left p m v len = .ok (value, len + k))
    (hj : k ≤ j) : decodeRemLenNet left m v (deliver (buf.load p j) ++ rest) =
      (.ok value, deliver (buf.load (p + k) (j - k)) ++ rest) := by
  induction left generalizing p m v len k j with
  | zero => exact absurd h (by simp [decodeRemLenLoop])
  | succ left ih =>
    obtain ⟨-, hlt, -⟩ := decodeRemLenLoop_le h
    obtain ⟨k, rfl⟩ : ∃ i, k = i + 1 := ⟨k - 1, by omega⟩
    obtain ⟨j, rfl⟩ : ∃ i, j = i + 1 := ⟨j - 1, by omega⟩
    rw [decodeRemLenNet_succ]
    rw [decodeRemLenLoop] at h
    split at h
    · rename_i hmore
      rw [Nat.add_comm k 1, ← Nat.add_assoc] at h
      rw [if_pos hmore, ih h (by omega), Nat.add_right_comm, Nat.add_sub_add_right]
      rfl
    · rename_i hlast
      obtain ⟨hvalue, hlen⟩ := Prod.mk.inj (Except.ok.inj h)
      obtain rfl : k = 0 := by omega
      rw [if_neg hlast, hvalue]
      rfl

theorem decodeRemLenNet_error (h : decodeRemLenLoop buf left p m v len = .error rc)
    (hj : left ≤ j) : decodeRemLenNet left m v (deliver (buf.load p j) ++ rest) =
      (.error rc, deliver (buf.load (p + left) (j - left)) ++ rest) := by
  induction left generalizing p m v len j with
  | zero =>
    rw [decodeRemLenLoop] at h
    rw [Except.error.inj h.symm]
    rfl
  | succ left ih =>
    obtain ⟨j, rfl⟩ : ∃ i, j = i + 1 := ⟨j - 1, by omega⟩
    rw [decodeRemLenNet_succ]
    rw [decodeRemLenLoop] at h
    split at h
    · rename_i hmore
      rw [if_pos hmore, ih h (by omega), Nat.add_right_comm, Nat.add_sub_add_right]
      rfl
    · exact absurd h (by simp)

/-- **The codec of remaining lengths.** What is written for a number is read back by both readers,
takes at most four bytes, and no encoding is shorter. Of the bytes from `p` on the two readers make
the same: the reader of the network, to which `j` of them come, leaves those behind the ones the
reader of the buffer counts, or both refuse them. -/
theorem remLen_codec {n : UInt32} (hn : n.toNat < 2 ^ 28) :
    (mqttWritePacketRemLen n).length ≤ maxNoOfRemainingLengthBytes ∧
    (∀ buf p, Mem.load buf p (mqttWritePacketRemLen n).length = mqttWritePacketRemLen n →
      mqttReadPacketRemLenFormBuf buf p = .ok (n.toNat, (mqttWritePacketRemLen n).length)) ∧
    (∀ rest, decodeRemLenNet maxNoOfRemainingLengthBytes 1 0
      (deliver (mqttWritePacketRemLen n) ++ rest) = (.ok n.toNat, rest)) ∧
    (∀ buf p k, mqttReadPacketRemLenFormBuf buf p = .ok (n.toNat, k) →
      (mqttWritePacketRemLen n).length ≤ k) ∧
    ∀ (buf : Mem) (p j : Nat) (rest : NetReads),
      match mqttReadPacketRemLenFormBuf buf p with
      | .ok (value, k) => k ≤ j →
        decodeRemLenNet maxNoOfRemainingLengthBytes 1 0 (deliver (buf.load p j) ++ rest) =
          (.ok value, deliver (buf.load (p + k) (j - k)) ++ rest)
      | .error rc => (∀ i < maxNoOfRemainingLengthBytes, 128 ≤ (buf (p + i)).toNat) ∧
        (maxNoOfRemainingLengthBytes ≤ j →
          decodeRemLenNet maxNoOfRemainingLengthBytes 1 0 (deliver (buf.load p j) ++ rest) =
            (.error rc, deliver (buf.load (p + maxNoOfRemainingLengthBytes)
              (j - maxNoOfRemainingLengthBytes)) ++ rest)) := by
  have hvarint := mqttWritePacketRemLen_varint n
  refine ⟨(remLen_length hvarint hn).2, fun _ _ hload => readRemLen_varint hvarint hn hload, ?_,
    fun _ _ _ h => written_length_le h, ?_⟩
  · intro rest
    have hload := Mem.load_store (fun _ => 0) 0 (mqttWritePacketRemLen n)
    have hread := readRemLen_varint hvarint hn hload
    unfold mqttReadPacketRemLenFormBuf at hread
    have hnet := decodeRemLenNet_ok rest (by rw [hread, Nat.zero_add]) (Nat.le_refl _)
    rw [hload, Nat.sub_self] at hnet
    exact hnet
  · intro buf p j rest
    split
    · rename_i value k h
      unfold mqttReadPacketRemLenFormBuf at h
      exact fun hj => decodeRemLenNet_ok rest (by rw [h, Nat.zero_add]) hj
    · rename_i rc h
      exact ⟨readRemLen_error_iff.mp ⟨rc, h⟩, decodeRemLenNet_error rest h⟩

theorem remLen_codec_321 :
    decodeRemLenNet 4 1 0 (deliver [0xc1, 0x02] ++ [(.retSuccess, [0x30])]) =
      (.ok 321, [(.retSuccess, [0x30])]) :=
  (remLen_codec (n := 321) (by decide)).2.2.1 _

end QcloudIot.Mqtt
