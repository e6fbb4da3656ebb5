import JvmDebug.Proofs.Jdwp.Reading

/-!
# Frames of a stream

A frame is a packet as it stands in a stream. Frames delimit themselves: a stream of frames is cut where one ends and
the next begins, whatever stands in them and however much of the stream has come. What no frame can be cut from is a
tail: either bytes are missing, or the length says what no length can be.
-/

namespace JvmDebug.Jdwp
set_option autoImplicit false

namespace Packet

/-! What the fields at the front of some bytes say -/

def lengthAt (bytes : Bytes) : Nat := Reader.bigEndian (bytes.take 4)
def idAt (bytes : Bytes) : UInt32 := (Reader.bigEndian ((bytes.drop 4).take 4)).toUInt32
def flagsAt (bytes : Bytes) : UInt8 := (bytes.drop 8).headD 0
def codeAt (bytes : Bytes) : UInt16 := (Reader.bigEndian ((bytes.drop 9).take 2)).toUInt16

/-- Some bytes of a packet are missing. -/
def IsCut (bytes : Bytes) : Prop :=
  bytes.length < headerSize ∨
    (headerSize ≤ lengthAt bytes ∧ lengthAt bytes ≤ maxPacketSize ∧ bytes.length < lengthAt bytes)

/-- The length field is there, and no packet has this length. -/
def IsBroken (bytes : Bytes) : Prop :=
  headerSize ≤ bytes.length ∧ (lengthAt bytes < headerSize ∨ maxPacketSize < lengthAt bytes)

abbrev IsTail (bytes : Bytes) : Prop := IsCut bytes ∨ IsBroken bytes

instance (bytes : Bytes) : Decidable (IsCut bytes) := inferInstanceAs (Decidable (_ ∨ _))
instance (bytes : Bytes) : Decidable (IsBroken bytes) := inferInstanceAs (Decidable (_ ∧ _))

/-- A packet with as many bytes as it says, and no more than a packet may have. -/
structure Frame where
  bytes : Bytes
  length_eq : lengthAt bytes = bytes.length
  header_le : headerSize ≤ bytes.length
  le_max : bytes.length ≤ maxPacketSize

namespace Frame

def id (f : Frame) : UInt32 := idAt f.bytes
def isReply (f : Frame) : Bool := flagsAt f.bytes = replyFlag
def data (f : Frame) : Bytes := f.bytes.drop headerSize

/-- What a frame says if it is a reply. -/
def reply (f : Frame) : Reply := ⟨f.id, codeAt f.bytes, f.data⟩

theorem ext {f g : Frame} (h : f.bytes = g.bytes) : f = g := by
  cases f
  cases g
  cases h
  rfl

end Frame

/-- The bytes of some frames and of what comes behind them. -/
def streamOf (frames : List Frame) (tail : Bytes) : Bytes := (frames.map Frame.bytes).flatten ++ tail

variable {ended : Option OsError} {bytes more front tail packet rest : Bytes} {id : UInt32} {isReply : Bool} {why : Error}

theorem lengthAt_append (h : headerSize ≤ bytes.length) (more : Bytes) : lengthAt (bytes ++ more) = lengthAt bytes := by
  rw [headerSize] at h
  rw [lengthAt, lengthAt, List.take_append_of_le_length (by omega)]

theorem idAt_append (h : headerSize ≤ bytes.length) (more : Bytes) : idAt (bytes ++ more) = idAt bytes := by
  rw [headerSize] at h
  have hRest : 4 ≤ (bytes.drop 4).length := by
    rw [List.length_drop]
    omega
  rw [idAt, idAt, List.drop_append_of_le_length (by omega), List.take_append_of_le_length hRest]

theorem flagsAt_append (h : headerSize ≤ bytes.length) (more : Bytes) : flagsAt (bytes ++ more) = flagsAt bytes := by
  rw [headerSize] at h
  have hRest : 0 < (bytes.drop 8).length := by
    rw [List.length_drop]
    omega
  rw [flagsAt, flagsAt, List.drop_append_of_le_length (by omega)]
  obtain ⟨b, others, hFirst⟩ := List.exists_cons_of_length_pos hRest
  rw [hFirst]
  rfl

theorem lengthAt_of_front (h : front <+: bytes) (hHeader : headerSize ≤ front.length) :
    lengthAt front = lengthAt bytes := by
  obtain ⟨more, rfl⟩ := h
  exact (lengthAt_append hHeader more).symm

theorem splitExact_of_le {n : Nat} (h : n ≤ bytes.length) : splitExact n bytes = some (bytes.take n, bytes.drop n) :=
  splitExact_eq_some.mpr ⟨(List.take_append_drop n bytes).symm, List.length_take_of_le h⟩

/-- What is read of some bytes, by what their fields say. -/
theorem read_eq (ended : Option OsError) (bytes : Bytes) :
    read ended bytes =
      if bytes.length < headerSize then short ended
      else if lengthAt bytes < headerSize then .failed (.malformed (.packetTooShort (lengthAt bytes)))
      else if maxPacketSize < lengthAt bytes then .failed (.malformed (.packetTooLong (lengthAt bytes) maxPacketSize))
      else if bytes.length < lengthAt bytes then short ended
      else .packet (idAt bytes) (flagsAt bytes = replyFlag) (bytes.take (lengthAt bytes)) (bytes.drop (lengthAt bytes)) := by
  unfold read
  split
  · next hNone => rw [if_pos (splitExact_eq_none.mp hNone)]
  next header others hHeader =>
  obtain ⟨hBytes, hLength⟩ := splitExact_eq_some.mp hHeader
  have hEnough : ¬bytes.length < headerSize := by
    rw [hBytes, List.length_append]
    omega
  have hFull : headerSize ≤ header.length := Nat.le_of_eq hLength.symm
  have hLengthAt : Reader.bigEndian (header.take 4) = lengthAt bytes := hBytes ▸ (lengthAt_append hFull others).symm
  have hIdAt : (Reader.bigEndian ((header.drop 4).take 4)).toUInt32 = idAt bytes :=
    hBytes ▸ (idAt_append hFull others).symm
  have hFlags : decide ((header.drop 8).head? = some replyFlag) = decide (flagsAt bytes = replyFlag) := by
    have hRest : 0 < (header.drop 8).length := by
      rw [List.length_drop, hLength, headerSize]
      omega
    rw [hBytes, flagsAt_append hFull others, flagsAt]
    obtain ⟨b, others', hFirst⟩ := List.exists_cons_of_length_pos hRest
    simp [hFirst]
  rw [if_neg hEnough]
  dsimp only
  rw [hLengthAt, hIdAt, hFlags]
  split
  · rfl
  split
  · rfl
  split
  · next hNone => rw [if_pos (splitExact_eq_none.mp hNone)]
  · next first rest hSplit =>
    have hLong : ¬bytes.length < lengthAt bytes := fun hShort => by
      rw [splitExact_eq_none.mpr hShort] at hSplit
      cases hSplit
    rw [splitExact_of_le (Nat.le_of_not_lt hLong)] at hSplit
    cases hSplit
    rw [if_neg hLong]

/-! ## Frames -/

theorem read_frame (ended : Option OsError) (f : Frame) (rest : Bytes) :
    read ended (f.bytes ++ rest) = .packet f.id f.isReply f.bytes rest := by
  have hLength : lengthAt (f.bytes ++ rest) = f.bytes.length := (lengthAt_append f.header_le rest).trans f.length_eq
  have hAll : (f.bytes ++ rest).length = f.bytes.length + rest.length := List.length_append
  have hHeader := f.header_le
  have hMax := f.le_max
  rw [read_eq, hLength, if_neg (by omega), if_neg (by omega), if_neg (by omega), if_neg (by omega),
    idAt_append f.header_le, flagsAt_append f.header_le, List.take_left' rfl, List.drop_left' rfl]
  rfl

/-- Whatever is cut off a stream is a frame. -/
theorem exists_frame (h : read ended bytes = .packet id isReply packet rest) :
    ∃ f : Frame, f.bytes = packet ∧ f.id = id ∧ f.isReply = isReply ∧ bytes = packet ++ rest := by
  rw [read_eq] at h
  split at h
  · exact absurd h (read_short ended)
  next hHeader =>
  split at h
  · cases h
  next hLeast =>
  split at h
  · cases h
  next hMost =>
  split at h
  · exact absurd h (read_short ended)
  next hAll =>
  cases h
  have hTake : (bytes.take (lengthAt bytes)).length = lengthAt bytes := List.length_take_of_le (by omega)
  have hFront : headerSize ≤ (bytes.take (lengthAt bytes)).length := by omega
  have hBytes := List.take_append_drop (lengthAt bytes) bytes
  have hField : lengthAt (bytes.take (lengthAt bytes)) = lengthAt bytes :=
    lengthAt_of_front (List.take_prefix ..) hFront
  refine ⟨⟨bytes.take (lengthAt bytes), hField.trans hTake.symm, hFront, by omega⟩, rfl, ?_, ?_, hBytes.symm⟩
  · exact (idAt_append hFront _).symm.trans (congrArg idAt hBytes)
  · have hFlags := (flagsAt_append hFront (bytes.drop (lengthAt bytes))).symm.trans (congrArg flagsAt hBytes)
    change decide (flagsAt (bytes.take (lengthAt bytes)) = replyFlag) = _
    rw [hFlags]

/-- As long as a frame has not come in full, bytes are missing. -/
theorem read_cut_frame (ended : Option OsError) {f : Frame} (h : front <+: f.bytes ++ rest)
    (hLess : front.length < f.bytes.length) : read ended front = short ended := by
  rw [read_eq]
  split
  · rfl
  next hHeader =>
  have hFront : front <+: f.bytes := List.prefix_of_prefix_length_le h (List.prefix_append ..) (by omega)
  have hLength : lengthAt front = f.bytes.length := (lengthAt_of_front hFront (by omega)).trans f.length_eq
  have hLeast := f.header_le
  have hMost := f.le_max
  rw [hLength, if_neg (by omega), if_neg (by omega), if_pos hLess]

/-- A reply is read as what its fields say. -/
theorem ofPacket_frame {f : Frame} (h : f.isReply = true) : Reply.ofPacket f.bytes = .ok f.reply := by
  have hFlags : flagsAt f.bytes = replyFlag := of_decide_eq_true h
  have hLeast := f.header_le
  have hDropTake : ∀ n ≤ headerSize, (f.bytes.take headerSize).drop n = (f.bytes.drop n).take (headerSize - n) :=
    fun n hn => List.drop_take ..
  have hFlags' : ((f.bytes.take headerSize).drop 8).headD 0 = flagsAt f.bytes := by
    conv_rhs => rw [← List.take_append_drop headerSize f.bytes]
    rw [flagsAt_append (Nat.le_of_eq (List.length_take_of_le hLeast).symm)]
    rfl
  have hId : ((f.bytes.take headerSize).drop 4).take 4 = (f.bytes.drop 4).take 4 := by
    rw [hDropTake 4 (by decide), List.take_take]
    rfl
  unfold Reply.ofPacket
  rw [splitExact_of_le hLeast]
  dsimp only
  rw [hFlags', hFlags, if_neg (by simp), hId, hDropTake 9 (by decide)]
  rfl

/-- A reply as it is sent. -/
def Frame.ofReply (r : Reply) (h : headerSize + r.data.length ≤ maxPacketSize) : Frame where
  bytes := r.packet
  length_eq := by
    have hWidth : (Layout.bigEndian 4 (headerSize + r.data.length)).length = 4 := length_bigEndian ..
    have hLess : headerSize + r.data.length < 256 ^ 4 := Nat.lt_of_le_of_lt h (by decide)
    simp only [lengthAt, Reply.packet, List.append_assoc, List.take_left' hWidth, Reader.bigEndian_layout hLess]
    simp [Layout.u32, Layout.u16, length_bigEndian, headerSize]
    omega
  header_le := by
    simp [Reply.packet, Layout.u32, Layout.u16, length_bigEndian, headerSize]
    omega
  le_max := by
    simp only [headerSize] at h
    simp [Reply.packet, Layout.u32, Layout.u16, length_bigEndian, headerSize]
    omega

/-- What is sent as a reply is read as this reply. -/
theorem reply_ofReply (r : Reply) (h : headerSize + r.data.length ≤ maxPacketSize) :
    (Frame.ofReply r h).isReply = true ∧ (Frame.ofReply r h).reply = r := by
  have hId : Layout.u32 r.id = Layout.bigEndian 4 r.id.toNat := rfl
  have hCode : Layout.u16 r.error = Layout.bigEndian 2 r.error.toNat := rfl
  have hFlags : flagsAt r.packet = replyFlag := by
    rw [flagsAt, Reply.packet, List.append_assoc, List.append_assoc, List.drop_left' (by simp [hId, length_bigEndian])]
    rfl
  have hIdAt : idAt r.packet = r.id := by
    rw [idAt, Reply.packet, List.append_assoc, List.append_assoc, List.append_assoc,
      List.drop_left' (length_bigEndian ..), hId, List.take_left' (length_bigEndian ..),
      Reader.bigEndian_layout r.id.toNat_lt]
    simp
  have hCodeAt : codeAt r.packet = r.error := by
    rw [codeAt, Reply.packet, List.append_assoc, List.drop_left' (by simp [hId, length_bigEndian]), hCode,
      List.take_left' (length_bigEndian ..), Reader.bigEndian_layout r.error.toNat_lt]
    simp
  have hData : r.packet.drop headerSize = r.data := by
    rw [Reply.packet, List.drop_left' (by simp [hId, hCode, length_bigEndian, headerSize])]
  refine ⟨decide_eq_true hFlags, ?_⟩
  change Reply.mk (idAt r.packet) (codeAt r.packet) (r.packet.drop headerSize) = r
  rw [hIdAt, hCodeAt, hData]

/-! ## Tails -/

/-- No packet is cut off a tail, however much of it has come. -/
theorem read_tail_ne (h : IsTail tail) (hFront : front <+: tail) :
    read ended front ≠ .packet id isReply packet rest := by
  intro hRead
  obtain ⟨f, rfl, -, -, rfl⟩ := exists_frame hRead
  obtain ⟨more, rfl⟩ := hFront
  have hField : lengthAt (f.bytes ++ rest ++ more) = f.bytes.length := by
    rw [List.append_assoc, lengthAt_append f.header_le, f.length_eq]
  have hLeast := f.header_le
  have hMost := f.le_max
  simp only [IsTail, IsCut, IsBroken, hField, List.length_append] at h
  omega

/-- A tail of which the length can be seen fails in the same way when more of it has come. -/
theorem read_failed_append (h : read none front = .failed why) (more : Bytes) : read none (front ++ more) = .failed why := by
  rw [read_eq] at h
  split at h
  · cases h
  next hHeader =>
  have hLength := lengthAt_append (Nat.le_of_not_lt hHeader) more
  rw [read_eq, hLength, List.length_append, if_neg (by omega)]
  split at h
  · next hLeast => rw [if_pos hLeast, h]
  next hLeast =>
  split at h
  · next hMost => rw [if_neg hLeast, if_pos hMost, h]
  · split at h <;> cases h

/-! ## Streams -/

variable {frames : List Frame}

theorem streamOf_cons (f : Frame) (frames : List Frame) (tail : Bytes) :
    streamOf (f :: frames) tail = f.bytes ++ streamOf frames tail := by
  simp [streamOf]

/-- What is cut off the front of a stream is its first frame. -/
theorem first_frame (hTail : IsTail tail) (hFront : front <+: streamOf frames tail)
    (hRead : read ended front = .packet id isReply packet rest) :
    ∃ f others, frames = f :: others ∧ f.id = id ∧ f.isReply = isReply ∧ f.bytes = packet := by
  cases frames with
  | nil => exact absurd hRead (read_tail_ne hTail hFront)
  | cons f others =>
    rw [streamOf_cons] at hFront
    by_cases hLess : front.length < f.bytes.length
    · rw [read_cut_frame ended hFront hLess] at hRead
      exact absurd hRead (read_short ended)
    · obtain ⟨more, rfl⟩ := List.prefix_of_prefix_length_le (List.prefix_append ..) hFront (Nat.le_of_not_lt hLess)
      rw [read_frame] at hRead
      cases hRead
      exact ⟨f, others, rfl, rfl, rfl, rfl⟩

/-- Reading fails at the tail only. -/
theorem only_tail_fails (hFront : front <+: streamOf frames tail) (hEnded : ended.isSome → front = streamOf frames tail)
    (hRead : read ended front = .failed why) : frames = [] ∧ ∃ ended, read ended tail = .failed why := by
  cases frames with
  | nil =>
    refine ⟨rfl, ?_⟩
    cases ended with
    | none =>
      obtain ⟨more, rfl⟩ : front <+: tail := hFront
      exact ⟨none, read_failed_append hRead more⟩
    | some e =>
      obtain rfl : front = tail := hEnded rfl
      exact ⟨some e, hRead⟩
  | cons f others =>
    rw [streamOf_cons] at hFront hEnded
    by_cases hLess : front.length < f.bytes.length
    · rw [read_cut_frame ended hFront hLess] at hRead
      cases ended with
      | none => cases hRead
      | some e =>
        rw [hEnded rfl, List.length_append] at hLess
        omega
    · obtain ⟨more, rfl⟩ := List.prefix_of_prefix_length_le (List.prefix_append ..) hFront (Nat.le_of_not_lt hLess)
      rw [read_frame] at hRead
      cases hRead

theorem read_broken (ended : Option OsError) (h : IsBroken bytes) : ∃ why, read ended bytes = .failed why := by
  obtain ⟨hHeader, hLength⟩ := h
  rw [read_eq, if_neg (Nat.not_lt_of_le hHeader)]
  split
  · exact ⟨_, rfl⟩
  · next hLeast => exact ⟨_, if_pos (hLength.resolve_left hLeast)⟩

/-- When the stream has ended, there is something to be read. -/
theorem read_ended (why : OsError) (bytes : Bytes) : read (some why) bytes ≠ .incomplete := by
  rw [read_eq]
  repeat' split
  all_goals nofun

end Packet
end JvmDebug.Jdwp
