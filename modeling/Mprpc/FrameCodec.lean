import Mprpc.Library.ByteOrder
import Mprpc.Transport

namespace Mprpc.FrameCodec

open Transport Library.ByteOrder

def getHeaderSize : Nat := 4

def hostToNetwork32 (value : Nat) : Nat := byteSwap 4 value

def networkToHost32 (value : Nat) : Nat := byteSwap 4 value

/-- The length is cast to 32 bits; an empty message has no frame at all. -/
def encode (message : Bytes) : Bytes :=
  if message.isEmpty then []
  else
    let messageLength := message.length % 2 ^ 32
    let networkLength := hostToNetwork32 messageLength
    littleEndian 4 networkLength ++ message

/-- The message and the rest of the buffer, or `none` where the code returns
false, which leaves the buffer as it is. -/
def decode (buffer : Bytes) : Option (Bytes × Bytes) :=
  if buffer.length < getHeaderSize then none
  else
    let messageLength := networkToHost32 (ofLittleEndian (buffer.take getHeaderSize))
    if 1024 * 1024 * 100 < messageLength then none
    else
      let totalFrameSize := getHeaderSize + messageLength
      if buffer.length < totalFrameSize then none
      else some ((buffer.take totalFrameSize).drop getHeaderSize, buffer.drop totalFrameSize)

theorem encode_nil : encode [] = [] := rfl

theorem encode_eq {message : Bytes} (h : message ≠ []) :
    encode message = bigEndian 4 message.length ++ message := by
  have hm := bigEndian_mod 4 message.length
  norm_num at hm
  simp [encode, h, hostToNetwork32, littleEndian_byteSwap, hm]

theorem encode_length {message : Bytes} (h : message ≠ []) :
    (encode message).length = 4 + message.length := by
  rw [encode_eq h, List.length_append, bigEndian_length]

theorem encode_take {message : Bytes} (h : message ≠ []) (rest : Bytes) :
    (encode message ++ rest).take 4 = bigEndian 4 message.length := by
  rw [encode_eq h, List.append_assoc, List.take_left' (bigEndian_length _ _)]

theorem encode_drop {message : Bytes} (h : message ≠ []) (rest : Bytes) :
    (encode message ++ rest).drop 4 = message ++ rest := by
  rw [encode_eq h, List.append_assoc, List.drop_left' (bigEndian_length _ _)]

theorem header_value {n : Nat} (h : n < 2 ^ 32) :
    byteSwap 4 (ofLittleEndian (bigEndian 4 n)) = n := by
  have hswap := byteSwap_ofLittleEndian (bigEndian 4 n)
  rw [bigEndian_length, ofBigEndian_bigEndian] at hswap
  rw [hswap]
  exact Nat.mod_eq_of_lt h

theorem encode_split {message header rest : Bytes} (hh : header.length = 4)
    (h : header ++ rest = encode message) :
    message ≠ [] ∧ header = bigEndian 4 message.length ∧ rest = message := by
  have hm : message ≠ [] := by
    rintro rfl
    rw [encode_nil, List.append_eq_nil_iff] at h
    rw [h.1] at hh
    cases hh
  rw [encode_eq hm] at h
  obtain ⟨hheader, hrest⟩ := List.append_inj h (by rw [hh, bigEndian_length])
  exact ⟨hm, hheader, hrest⟩

/-- `decode` undoes `encode` on what it does not take for too long. -/
theorem decode_encode {message : Bytes} (hm : message ≠ [])
    (hmax : message.length ≤ 1024 * 1024 * 100) (rest : Bytes) :
    decode (encode message ++ rest) = some (message, rest) := by
  have hlen : (encode message ++ rest).length = 4 + message.length + rest.length := by
    rw [List.length_append, encode_length hm]
  have hvalue : networkToHost32 (ofLittleEndian ((encode message ++ rest).take getHeaderSize)) =
      message.length := by
    rw [getHeaderSize, encode_take hm]
    exact header_value (by omega)
  have hheader : ¬ (encode message ++ rest).length < getHeaderSize := by
    rw [hlen, getHeaderSize]
    omega
  have hwhole : ¬ (encode message ++ rest).length < getHeaderSize + message.length := by
    rw [hlen, getHeaderSize]
    omega
  have hframe : (encode message).length = getHeaderSize + message.length := encode_length hm
  have hbody : (encode message).drop getHeaderSize = message := by
    have h := encode_drop hm []
    rwa [List.append_nil, List.append_nil] at h
  rw [decode, if_neg hheader]
  dsimp only
  rw [hvalue, if_neg (Nat.not_lt.mpr hmax), if_neg hwhole, List.take_left' hframe,
    List.drop_left' hframe, hbody]

theorem header_eq {xs : Bytes} (h : 4 ≤ xs.length) :
    networkToHost32 (ofLittleEndian (xs.take getHeaderSize)) = ofBigEndian (xs.take 4) := by
  have hswap := byteSwap_ofLittleEndian (xs.take 4)
  have hl : (xs.take 4).length = 4 := by
    rw [List.length_take]
    omega
  rw [hl] at hswap
  exact hswap

theorem decode_eq (xs : Bytes) :
    decode xs =
      if xs.length < 4 then none
      else if 1024 * 1024 * 100 < ofBigEndian (xs.take 4) then none
      else if xs.length < ofBigEndian (xs.take 4) + 4 then none
      else some ((xs.drop 4).take (ofBigEndian (xs.take 4)),
        xs.drop (ofBigEndian (xs.take 4) + 4)) := by
  by_cases h4 : xs.length < 4
  · rw [decode, getHeaderSize, if_pos h4, if_pos h4]
  · have hheader := header_eq (not_lt.mp h4)
    rw [decode]
    dsimp only
    rw [hheader, getHeaderSize, if_neg h4, if_neg h4, Nat.add_comm, List.drop_take,
      Nat.add_sub_cancel]

theorem decode_some {xs message rest : Bytes} (h : decode xs = some (message, rest)) :
    4 ≤ xs.length ∧ ofBigEndian (xs.take 4) ≤ 1024 * 1024 * 100 ∧
      ofBigEndian (xs.take 4) + 4 ≤ xs.length ∧
      message = (xs.drop 4).take (ofBigEndian (xs.take 4)) ∧
      rest = xs.drop (ofBigEndian (xs.take 4) + 4) := by
  rw [decode_eq] at h
  split at h
  · cases h
  split at h
  · cases h
  split at h
  · cases h
  · cases h
    exact ⟨by omega, by omega, by omega, rfl, rfl⟩

theorem decode_length {xs message rest : Bytes} (h : decode xs = some (message, rest)) :
    rest.length < xs.length := by
  obtain ⟨h4, -, hlen, -, rfl⟩ := decode_some h
  rw [List.length_drop]
  omega

/-- Bytes that arrive later do not change what is decoded. -/
theorem decode_append {xs message rest : Bytes} (h : decode xs = some (message, rest))
    (ys : Bytes) : decode (xs ++ ys) = some (message, rest ++ ys) := by
  obtain ⟨h4, hmax, hlen, rfl, rfl⟩ := decode_some h
  have hbody : ofBigEndian (xs.take 4) ≤ (xs.drop 4).length := by
    rw [List.length_drop]
    omega
  have h4' : ¬ (xs ++ ys).length < 4 := by
    rw [List.length_append]
    omega
  have hall : ¬ (xs ++ ys).length < ofBigEndian (xs.take 4) + 4 := by
    rw [List.length_append]
    omega
  rw [decode_eq, if_neg h4', List.take_append_of_le_length h4, if_neg (by omega), if_neg hall,
    List.drop_append_of_le_length h4, List.take_append_of_le_length hbody,
    List.drop_append_of_le_length hlen]

theorem decode_short {message xs : Bytes} (hm : message ≠ []) (hmax : message.length < 2 ^ 32)
    (hp : xs <+: encode message) (hx : xs ≠ encode message) : decode xs = none := by
  obtain ⟨ys, hys⟩ := hp
  have hlen := congrArg List.length hys
  rw [List.length_append, encode_length hm] at hlen
  have hpos : 0 < ys.length := by
    apply List.length_pos_iff.mpr
    rintro rfl
    exact hx (by rw [← hys, List.append_nil])
  rw [decode_eq]
  by_cases h4 : xs.length < 4
  · rw [if_pos h4]
  · have hheader : ofBigEndian (xs.take 4) = message.length := by
      have htake := encode_take hm []
      rw [List.append_nil, ← hys, List.take_append_of_le_length (by omega)] at htake
      rw [htake, ofBigEndian_bigEndian]
      exact Nat.mod_eq_of_lt hmax
    rw [if_neg h4, hheader]
    split
    · rfl
    · rw [if_pos (by omega)]

end Mprpc.FrameCodec
