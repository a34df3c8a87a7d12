import Gateway.Protocol.Packet

/-!
# Encoder and decoder of the packet protocol
-/

namespace Gateway.Protocol
open Packet

/-- The header field and the payload agree, so the buffer of `serialize` is
filled exactly. -/
theorem serialize_eq (p : Packet) (h : p.getPayloadLength.toNat = p.payload.length) :
    p.serialize = some (p.header.bytes ++ p.payload) := by
  have hhdr : memcpy (List.replicate (headerSize + p.payload.length) 0) 0 p.header.bytes =
      some (p.header.bytes ++ List.replicate p.payload.length 0) := by
    rw [memcpy_eq_some (by simp)]
    simp
  unfold serialize
  simp only [h, hhdr, Option.bind_eq_bind, Option.bind_some, Option.pure_def]
  split_ifs with he
  · rw [List.isEmpty_iff.mp he]
    rfl
  · rw [memcpy_eq_some (by simp), List.take_left' (bytes_length _),
      List.drop_of_length_le (by simp), List.append_nil]

theorem ofData_eq (type : PacketType) (data : Bytes) (h : data.length ≤ maxPayloadSize) :
    ofData type data =
      .ok ⟨⟨protocolVersion, type.toByte, htonl (.ofNat 32 data.length)⟩, data⟩ :=
  if_neg (by omega)

theorem ofNat_length_toNat {data : Bytes} (h : data.length ≤ maxPayloadSize) :
    (BitVec.ofNat 32 data.length).toNat = data.length := by
  unfold maxPayloadSize at h
  rw [BitVec.toNat_ofNat]
  omega

/-- The bytes `Packet(type, data).serialize()` puts on the wire. -/
def frame (type : PacketType) (data : Bytes) : Bytes :=
  PacketHeader.bytes ⟨protocolVersion, type.toByte, htonl (.ofNat 32 data.length)⟩ ++ data

theorem frame_length (type : PacketType) (data : Bytes) :
    (frame type data).length = headerSize + data.length := by
  simp [frame]

theorem serialize_ofData (type : PacketType) (data : Bytes) (h : data.length ≤ maxPayloadSize) :
    ∃ p, ofData type data = .ok p ∧ p.serialize = some (frame type data) := by
  refine ⟨_, ofData_eq type data h, ?_⟩
  apply serialize_eq
  simp [getPayloadLength, ofNat_length_toNat h]

theorem readHeader_frame (type : PacketType) (data rest : Bytes) :
    readHeader (frame type data ++ rest) =
      ⟨protocolVersion, type.toByte, htonl (.ofNat 32 data.length)⟩ := by
  rw [frame, List.append_assoc, readHeader_bytes_append]

theorem announced_frame (type : PacketType) (data rest : Bytes) (h : data.length ≤ maxPayloadSize) :
    (ntohl (readHeader (frame type data ++ rest)).length).toNat = data.length := by
  rw [readHeader_frame, ntohl_htonl, ofNat_length_toNat h]

theorem framed_append (type : PacketType) (data rest : Bytes) (h : data.length ≤ maxPayloadSize) :
    Framed (frame type data ++ rest) := by
  unfold Framed
  rw [announced_frame type data rest h, readHeader_frame, List.length_append, frame_length]
  exact ⟨by omega, rfl, h, by omega⟩

/-- A buffer and a longer one have the same header once six bytes are there. -/
theorem readHeader_append {b : Bytes} (h : headerSize ≤ b.length) (rest : Bytes) :
    readHeader (b ++ rest) = readHeader b := by
  match b, h with
  | _ :: _ :: _ :: _ :: _ :: _ :: _, _ => rfl

/-- Round trip, and no strict part of a frame is taken for a packet. -/
theorem deserialize_serialize (type : PacketType) (data rest : Bytes) (out : Packet)
    (hd : data.length ≤ maxPayloadSize) :
    ∃ p raw, ofData type data = .ok p ∧ p.serialize = some raw ∧
      (∃ q, deserialize (raw ++ rest) out = (true, q) ∧ q.header.version = 1 ∧
        q.getType = some type ∧ q.getPayloadLength.toNat = data.length ∧ q.payload = data) ∧
      ∀ part, part <+: raw → part ≠ raw → (deserialize part out).1 = false := by
  obtain ⟨p, hp, hraw⟩ := serialize_ofData type data hd
  refine ⟨p, frame type data, hp, hraw, ?_, ?_⟩
  · have hlen := announced_frame type data rest hd
    have hdec := deserialize_eq (frame type data ++ rest) out
    rw [if_pos (framed_append type data rest hd)] at hdec
    refine ⟨_, hdec, ?_, ?_, hlen, ?_⟩
    · rw [readHeader_frame]
      rfl
    · rw [readHeader_frame]
      exact PacketType.ofByte_toByte type
    · dsimp only
      rw [hlen, frame, List.append_assoc, List.drop_left' (bytes_length _), List.take_left]
  · rintro part ⟨tail, htail⟩ hne
    rw [deserialize_eq, if_neg]
    rintro ⟨h6, -, -, hfit⟩
    -- the header survives the cut, so the missing bytes are payload
    have hlen := announced_frame type data [] hd
    rw [List.append_nil, ← htail, readHeader_append h6] at hlen
    have hsum := congrArg List.length htail
    rw [List.length_append, frame_length] at hsum
    have htail0 : tail = [] := List.eq_nil_of_length_eq_zero (by omega)
    exact hne (by rw [← htail, htail0, List.append_nil])

/-- A payload, with the beginning of the next frame behind it, decoded into a packet that held
another one. -/
theorem deserialize_serialize_reused :
    let data : Bytes := [104, 101, 108, 108, 111]
    let out : Packet := ⟨⟨protocolVersion, PacketType.ping.toByte, htonl 2⟩, [1, 2]⟩
    data.length ≤ maxPayloadSize ∧
      ∃ p raw, ofData .data data = .ok p ∧ p.serialize = some raw ∧
        (∃ q, deserialize (raw ++ [1, 3, 0, 0]) out = (true, q) ∧ q.header.version = 1 ∧
          q.getType = some .data ∧ q.getPayloadLength.toNat = 5 ∧ q.payload = data) ∧
        ∀ part, part <+: raw → part ≠ raw → (deserialize part out).1 = false :=
  ⟨by decide, deserialize_serialize .data _ [1, 3, 0, 0] _ (by decide)⟩

/-- Some prefix of the buffer is what the encoder makes of a declared type and a
payload within the limit. -/
def EncodedPrefix (b : Bytes) : Prop :=
  ∃ type data p raw, data.length ≤ maxPayloadSize ∧ ofData type data = .ok p ∧
    p.serialize = some raw ∧ raw <+: b

theorem encodedPrefix_iff (b : Bytes) :
    EncodedPrefix b ↔ ∃ type data, data.length ≤ maxPayloadSize ∧ frame type data <+: b := by
  constructor
  · rintro ⟨type, data, p, raw, hd, hp, hraw, hpre⟩
    obtain ⟨p', hp', hraw'⟩ := serialize_ofData type data hd
    cases hp.symm.trans hp'
    cases hraw.symm.trans hraw'
    exact ⟨type, data, hd, hpre⟩
  · rintro ⟨type, data, hd, hpre⟩
    obtain ⟨p, hp, hraw⟩ := serialize_ofData type data hd
    exact ⟨type, data, p, _, hd, hp, hraw, hpre⟩

/-- A framed buffer starts with its own header and payload. -/
theorem Framed.split {b : Bytes} (h : Framed b) :
    ∃ data rest, data.length = (ntohl (readHeader b).length).toNat ∧
      b = (readHeader b).bytes ++ (data ++ rest) := by
  obtain ⟨h6, -, -, hfit⟩ := h
  refine ⟨(b.drop headerSize).take (ntohl (readHeader b).length).toNat,
    (b.drop headerSize).drop (ntohl (readHeader b).length).toNat, ?_, ?_⟩
  · rw [List.length_take, List.length_drop]
    omega
  · rw [List.take_append_drop, bytes_readHeader b h6, List.take_append_drop]

/-- Frames are the framed buffers whose type byte is declared. -/
theorem encodedPrefix_iff_framed (b : Bytes) :
    EncodedPrefix b ↔ Framed b ∧ ∃ type : PacketType, (readHeader b).type = type.toByte := by
  rw [encodedPrefix_iff]
  constructor
  · rintro ⟨type, data, hd, rest, rfl⟩
    exact ⟨framed_append type data rest hd, type, by rw [readHeader_frame]⟩
  · rintro ⟨hb, type, htype⟩
    obtain ⟨data, rest, hlen, hsplit⟩ := hb.split
    refine ⟨type, data, hlen.trans_le hb.2.2.1, rest, ?_⟩
    have hhdr : readHeader b =
        ⟨protocolVersion, type.toByte, htonl (.ofNat 32 data.length)⟩ := by
      have hl : htonl (.ofNat 32 data.length) = (readHeader b).length := by
        rw [hlen, BitVec.ofNat_toNat, BitVec.setWidth_eq, htonl_ntohl]
      rw [hl, ← htype, ← hb.2.1]
    rw [frame, List.append_assoc, ← hhdr]
    exact hsplit.symm

theorem deserialize_iff_framed (b : Bytes) (out : Packet) :
    (deserialize b out).1 = true ↔ Framed b := by
  rw [deserialize_eq]
  split_ifs with h <;> simp [h]

/-- The decoder agrees with the encoder exactly when the buffer holds no complete
version-1 frame or its type byte is declared: the type byte is never looked at. -/
theorem accepts_encoded_iff (b : Bytes) (out : Packet) :
    ((deserialize b out).1 = true ↔ EncodedPrefix b) ↔
      b.length < headerSize ∨ (readHeader b).version ≠ protocolVersion ∨
        maxPayloadSize < (ntohl (readHeader b).length).toNat ∨
        b.length < headerSize + (ntohl (readHeader b).length).toNat ∨
        ∃ type : PacketType, (readHeader b).type = type.toByte := by
  rw [deserialize_iff_framed, encodedPrefix_iff_framed]
  by_cases hb : Framed b
  · obtain ⟨h1, h2, h3, h4⟩ := id hb
    simp only [hb, true_and, true_iff, h2, ne_eq, not_true_eq_false, Nat.not_lt.mpr h1,
      Nat.not_lt.mpr h3, Nat.not_lt.mpr h4, false_or]
  · simp only [hb, false_and, true_iff]
    by_contra! hcon
    exact hb ⟨hcon.1, hcon.2.1, hcon.2.2.1, hcon.2.2.2.1⟩

/-- Type byte 0x63 is in no `PacketType`, and the decoder accepts it. -/
theorem undeclared_type_accepted :
    (deserialize [1, 0x63, 0, 0, 0, 0] .new).1 = true ∧
      ¬ EncodedPrefix [1, 0x63, 0, 0, 0, 0] := by
  refine ⟨by decide, ?_⟩
  rw [encodedPrefix_iff_framed]
  rintro ⟨-, type, htype⟩
  cases type <;> exact absurd htype (by decide)

/-! ## Decoding first -/

theorem Framed.append {b : Bytes} (h : Framed b) (rest : Bytes) : Framed (b ++ rest) := by
  obtain ⟨hsize, hversion, hlimit, hfit⟩ := h
  unfold Framed
  rw [readHeader_append hsize, List.length_append]
  exact ⟨by omega, hversion, hlimit, by omega⟩

/-- The packet in a framed buffer. -/
def packetIn (b : Bytes) : Packet :=
  ⟨readHeader b, (b.drop headerSize).take (ntohl (readHeader b).length).toNat⟩

theorem packetIn_append {b : Bytes} (h : Framed b) (rest : Bytes) :
    packetIn (b ++ rest) = packetIn b := by
  obtain ⟨hsize, -, -, hfit⟩ := h
  unfold packetIn
  rw [readHeader_append hsize, List.drop_append_of_le_length hsize,
    List.take_append_of_le_length]
  rw [List.length_drop]
  omega

theorem getPayloadLength_packetIn {b : Bytes} (h : Framed b) :
    (packetIn b).getPayloadLength.toNat = (packetIn b).payload.length := by
  obtain ⟨-, -, -, hfit⟩ := h
  rw [packetIn, getPayloadLength]
  dsimp only
  rw [List.length_take, List.length_drop]
  omega

theorem serialize_packetIn {b : Bytes} (h : Framed b) :
    (packetIn b).serialize = some (b.take (headerSize + (packetIn b).getPayloadLength.toNat)) := by
  rw [serialize_eq _ (getPayloadLength_packetIn h), List.take_add, ← bytes_readHeader b h.1]
  rfl

/-- A decoded packet is encoded as the bytes it was read from, and is read again from every
longer buffer; a buffer that is refused leaves the packet that was there. -/
theorem serialize_deserialize (b : Bytes) (out : Packet) :
    ((deserialize b out).1 = true →
      (deserialize b out).2.serialize =
          some (b.take (headerSize + (deserialize b out).2.getPayloadLength.toNat)) ∧
        ∀ rest out', deserialize (b ++ rest) out' = (true, (deserialize b out).2)) ∧
    ((deserialize b out).1 = false → (deserialize b out).2 = out) := by
  by_cases hb : Framed b
  · have hdec : deserialize b out = (true, packetIn b) := (deserialize_eq b out).trans (if_pos hb)
    rw [hdec]
    refine ⟨fun _ => ⟨serialize_packetIn hb, fun rest out' => ?_⟩, fun h => absurd h (by simp)⟩
    rw [← packetIn_append hb rest]
    exact (deserialize_eq _ out').trans (if_pos (hb.append rest))
  · have hdec : deserialize b out = (false, out) := (deserialize_eq b out).trans (if_neg hb)
    rw [hdec]
    exact ⟨fun h => absurd h (by simp), fun _ => rfl⟩

/-- An undeclared type and a byte after the payload. -/
theorem serialize_deserialize_undeclared :
    ∃ q, deserialize [1, 0x63, 0, 0, 0, 1, 42, 7] .new = (true, q) ∧
      q.serialize = some [1, 0x63, 0, 0, 0, 1, 42] ∧
      ∀ rest out', deserialize ([1, 0x63, 0, 0, 0, 1, 42, 7] ++ rest) out' = (true, q) := by
  obtain ⟨hraw, hagain⟩ := (serialize_deserialize [1, 0x63, 0, 0, 0, 1, 42, 7] .new).1 rfl
  exact ⟨_, rfl, hraw, hagain⟩

end Gateway.Protocol
