import QcloudIot.Coap.Client
import QcloudIot.Lib.Draws
import QcloudIot.Mqtt.PacketIds

/-!
# The id generators of the two clients

`get_next_packet_id` (mqtt_client_common.c) and `get_next_coap_msg_id` (coap_client_common.c) count
from 1 to 65535 and begin again, each from the random start its client was created with
(`_get_random_start_packet_id`, in mqtt_client.c and coap_client.c alike). The start may be 0, which
no call returns.

**`ids_distinct`**: from every start, up to 65535 calls in a row return distinct ids from 1 to 65535.
-/

namespace QcloudIot.Coap

open QcloudIot.Lib QcloudIot.Mqtt

/-- `_get_random_start_packet_id`, with what `rand` returns: the sum is cut to 16 bits. -/
def getRandomStartPacketId (rand : Nat) : UInt16 := UInt16.ofNat (rand % 65536 + 1)

/-- Every start may come. -/
theorem exists_rand (start : UInt16) : ∃ rand < 65536, getRandomStartPacketId rand = start := by
  refine ⟨(start.toNat + 65535) % 65536, by omega, ?_⟩
  have hlt := start.toNat_lt
  rw [← UInt16.toNat_inj, getRandomStartPacketId, UInt16.toNat_ofNat']
  omega

/-- 0 too, though the source says "1- 65536". -/
example : getRandomStartPacketId 65535 = 0 := rfl

/-! ## The generators as counters -/

/-- Each call of `get_next_packet_id` counts on. -/
theorem isCounter_getNextPacketId : IsCounter Client.getNextPacketId Client.nextPacketId nextId where
  value := getNextPacketId_fst
  stands _ := rfl

/-- So does each call of `get_next_coap_msg_id`. -/
theorem isCounter_getNextCoapMsgId :
    IsCounter CoapClient.getNextCoapMsgId CoapClient.nextMsgId nextId where
  value _ := rfl
  stands _ := rfl

theorem nextId_range (id : UInt16) : 1 ≤ (nextId id).toNat ∧ (nextId id).toNat ≤ 65535 := by
  have hlt := (nextId id).toNat_lt
  rw [toNat_nextId] at hlt ⊢
  omega

/-- What such a counter returns in a row. -/
theorem draws_distinct {σ : Type*} {call : σ → UInt16 × σ} {last : σ → UInt16}
    (h : IsCounter call last nextId) {k : Nat} (hk : k ≤ 65535) (c : σ) :
    (draws call k c).Nodup ∧ ∀ id ∈ draws call k c, 1 ≤ id.toNat ∧ id.toNat ≤ 65535 := by
  refine ⟨h.nodup_draws (fun i k => (iterate_nextId_eq_iff i k).mp) hk c, fun id hid => ?_⟩
  obtain ⟨before, rfl⟩ := h.exists_of_mem_draws hid
  exact nextId_range before

/-- **The ids of up to 65535 calls in a row are distinct**, whatever id the client stands at. -/
theorem ids_distinct (k : Nat) (hk : k ≤ 65535) :
    (∀ c : Client, (draws Client.getNextPacketId k c).Nodup ∧
      ∀ id ∈ draws Client.getNextPacketId k c, 1 ≤ id.toNat ∧ id.toNat ≤ 65535) ∧
    (∀ c : CoapClient, (draws CoapClient.getNextCoapMsgId k c).Nodup ∧
      ∀ id ∈ draws CoapClient.getNextCoapMsgId k c, 1 ≤ id.toNat ∧ id.toNat ≤ 65535) :=
  ⟨draws_distinct isCounter_getNextPacketId hk, draws_distinct isCounter_getNextCoapMsgId hk⟩

/-- A full round of two clients that start at 0. -/
theorem ids_distinct_fullRound :
    (draws Client.getNextPacketId 65535
      (Client.init none (getRandomStartPacketId 65535) 5000 ⟨60, true⟩)).Nodup ∧
    (draws CoapClient.getNextCoapMsgId 65535
      (CoapClient.init deviceD (getRandomStartPacketId 65535) 5 none)).Nodup :=
  ⟨((ids_distinct 65535 (Nat.le_refl _)).1 _).1, ((ids_distinct 65535 (Nat.le_refl _)).2 _).1⟩

end QcloudIot.Coap
