import Gateway.Lib.Steps
import Gateway.Protocol.Framing

/-!
# Packets in use

A program makes packets, copies them and decodes into them. The fields of a packet are public
in the source; what is shown is about packets that are only used through its operations.
-/

namespace Gateway.Protocol
open Packet Steps

/-- What a program does with its packets, which it knows by their position. -/
inductive PacketOp where
  | default
  | construct (type : PacketType) (data : Bytes)
  | copy (source : ℕ)
  | assign (target source : ℕ)
  | deserialize (target : ℕ) (buffer : Bytes)

/-- The packets after an operation. A constructor that throws makes no packet, and an operation
on a packet that is not there is none. -/
def packetStep (packets : List Packet) : PacketOp → Option (List Packet)
  | .default => some (packets ++ [Packet.new])
  | .construct type data =>
    match ofData type data with
    | .ok p => some (packets ++ [p])
    | .error _ => some packets
  | .copy source => packets[source]?.map fun p => packets ++ [p]
  | .assign target source =>
    if target < packets.length then packets[source]?.map fun p => packets.set target p else none
  | .deserialize target buffer =>
    packets[target]?.map fun p => packets.set target (deserialize buffer p).2

/-- The length in the header is that of the payload, and within the limit. -/
structure Consistent (p : Packet) : Prop where
  length_eq : p.getPayloadLength.toNat = p.payload.length
  length_le : p.payload.length ≤ maxPayloadSize

theorem consistent_new : Consistent Packet.new := ⟨by decide, by decide⟩

theorem consistent_of_ofData {type : PacketType} {data : Bytes} {p : Packet}
    (h : ofData type data = .ok p) : Consistent p := by
  by_cases hd : data.length ≤ maxPayloadSize
  · rw [ofData_eq type data hd] at h
    obtain rfl := Except.ok.inj h
    exact ⟨by simp [getPayloadLength, ofNat_length_toNat hd], hd⟩
  · rw [ofData, if_pos (by omega)] at h
    exact absurd h (by simp)

theorem consistent_packetIn {b : Bytes} (h : Framed b) : Consistent (packetIn b) := by
  have hlen := getPayloadLength_packetIn h
  refine ⟨hlen, ?_⟩
  rw [← hlen]
  exact h.2.2.1

/-- A packet is replaced by a consistent one, or left alone. -/
theorem consistent_deserialize {p : Packet} (h : Consistent p) (b : Bytes) :
    Consistent (deserialize b p).2 := by
  rw [deserialize_eq]
  split
  · next hb => exact consistent_packetIn hb
  · exact h

theorem forall_mem_set {P : Packet → Prop} {packets : List Packet} {p : Packet} (i : ℕ)
    (h : ∀ q ∈ packets, P q) (hp : P p) : ∀ q ∈ packets.set i p, P q := by
  intro q hq
  rcases List.mem_or_eq_of_mem_set hq with hq | rfl
  · exact h q hq
  · exact hp

/-- No operation makes an inconsistent packet of consistent ones. -/
theorem consistent_of_packetStep {packets packets' : List Packet} {op : PacketOp}
    (h : ∀ p ∈ packets, Consistent p) (hstep : packetStep packets op = some packets') :
    ∀ p ∈ packets', Consistent p := by
  cases op with
  | default =>
    obtain rfl := Option.some.inj hstep
    exact List.forall_mem_append.mpr ⟨h, List.forall_mem_singleton.mpr consistent_new⟩
  | construct type data =>
    rw [packetStep] at hstep
    split at hstep
    · next p hp =>
      obtain rfl := Option.some.inj hstep
      exact List.forall_mem_append.mpr ⟨h, List.forall_mem_singleton.mpr (consistent_of_ofData hp)⟩
    · obtain rfl := Option.some.inj hstep
      exact h
  | copy source =>
    obtain ⟨p, hp, rfl⟩ := Option.map_eq_some_iff.mp hstep
    have hcopied := h p (List.mem_of_getElem? hp)
    exact List.forall_mem_append.mpr ⟨h, List.forall_mem_singleton.mpr hcopied⟩
  | assign target source =>
    obtain ⟨-, hstep⟩ := Option.ite_none_right_eq_some.mp hstep
    obtain ⟨p, hp, rfl⟩ := Option.map_eq_some_iff.mp hstep
    exact forall_mem_set target h (h p (List.mem_of_getElem? hp))
  | deserialize target buffer =>
    obtain ⟨p, hp, rfl⟩ := Option.map_eq_some_iff.mp hstep
    exact forall_mem_set target h (consistent_deserialize (h p (List.mem_of_getElem? hp)) buffer)

/-- In every run, every packet has the length its header says, within the limit, and is
serialized into a buffer that the header and the payload fill exactly. -/
theorem packet_length_agrees (ops : List PacketOp) (packets : List Packet)
    (h : exec packetStep [] ops = some packets) :
    ∀ p ∈ packets, p.getPayloadLength.toNat = p.payload.length ∧
      p.payload.length ≤ maxPayloadSize ∧
      ∃ raw, p.serialize = some raw ∧ raw = p.header.bytes ++ p.payload ∧
        raw.length = 6 + p.payload.length := by
  have hinv : ∀ p ∈ packets, Consistent p :=
    invariant_of_reachable (I := fun packets => ∀ p ∈ packets, Consistent p)
      (fun _ _ _ => trivial) (fun _ _ _ _ => consistent_of_packetStep) (by simp) h
  intro p hp
  obtain ⟨hlen, hle⟩ := hinv p hp
  refine ⟨hlen, hle, _, serialize_eq p hlen, rfl, ?_⟩
  rw [List.length_append, bytes_length]
  rfl

/-- A packet that was decoded into twice, the second time from a buffer that is refused, and
its copy. -/
theorem packet_length_agrees_reused :
    ∃ packets, exec packetStep [] [.default, .construct .ping [9],
        .deserialize 0 [1, 3, 0, 0, 0, 1, 42, 7], .deserialize 0 [1, 3, 0, 0, 0, 9], .copy 0] =
          some packets ∧
      ∀ p ∈ packets, p.getPayloadLength.toNat = p.payload.length := by
  obtain ⟨packets, hrun⟩ : ∃ packets, exec packetStep [] [.default, .construct .ping [9],
      .deserialize 0 [1, 3, 0, 0, 0, 1, 42, 7], .deserialize 0 [1, 3, 0, 0, 0, 9], .copy 0] =
        some packets := ⟨_, rfl⟩
  refine ⟨packets, hrun, ?_⟩
  intro p hp
  exact (packet_length_agrees _ packets hrun p hp).1

end Gateway.Protocol
