import ChatProject.Protocol

/-!
# What packing and unpacking preserve

A conversion of the answer field is its effect on the four bytes at the field's offset.
Requests survive the round trip on little-endian hosts unless the missing `break`
reverses bytes 4 to 7 of a leave request, the fourth to seventh characters of its group
name. Answers survive it on hosts of any byte order, except that a leave answer is
converted on one side only.
-/

namespace ChatProject.Protocol
open Memory ByteOrder

theorem convertAnswer_append (bo : ByteOrder) (pre w rest : Bytes) (off : ℕ)
    (hpre : pre.length = off) (hw : w.length = 4) :
    convertAnswer bo (pre ++ (w ++ rest)) off =
      pre ++ (bo.wordBytes (htonl bo (ofBytes bo w)) ++ rest) := by
  have hdrop : ofBytes bo (w ++ rest) = ofBytes bo w := by
    match w, hw with
    | [_, _, _, _], _ => cases bo <;> rfl
  subst hpre
  simp [convertAnswer, store32, load32, store, hdrop, ← hw]

theorem convertAnswer_little (b0 b1 b2 b3 b4 b5 b6 b7 : UInt8) (rest : Bytes) :
    convertAnswer .little (b0 :: b1 :: b2 :: b3 :: b4 :: b5 :: b6 :: b7 :: rest)
        registerAnsAnswer =
      b0 :: b1 :: b2 :: b3 :: b7 :: b6 :: b5 :: b4 :: rest := by
  have h := convertAnswer_append .little [b0, b1, b2, b3] [b4, b5, b6, b7] rest 4 rfl rfl
  rw [wordBytes_htonl] at h
  simpa [registerAnsAnswer, wordBytes, ofBytes, bytesLE_ofBytesLE] using h

def sizeofRequest : ProtocolType → ℕ
  | .registerReq | .loginReq => sizeofUserDetails
  | _ => sizeofGroupDetails

structure RequestMemory where
  type : ProtocolType
  supported : type ∈ requestTypes
  bytes : Bytes
  size : bytes.length = sizeofRequest type

theorem RequestMemory.eight_bytes (m : RequestMemory) : ∃ b0 b1 b2 b3 b4 b5 b6 b7 rest,
    m.bytes = b0 :: b1 :: b2 :: b3 :: b4 :: b5 :: b6 :: b7 :: rest := by
  have hs : 8 ≤ m.bytes.length := by
    rw [m.size]
    cases m.type <;> simp [sizeofRequest, sizeofUserDetails, sizeofGroupDetails]
  match hb : m.bytes with
  | [] | [_] | [_, _] | [_, _, _] | [_, _, _, _] | [_, _, _, _, _] | [_, _, _, _, _, _]
  | [_, _, _, _, _, _, _] => simp [hb] at hs
  | b0 :: b1 :: b2 :: b3 :: b4 :: b5 :: b6 :: b7 :: rest => exact ⟨_, _, _, _, _, _, _, _, _, rfl⟩

/-- What the server unpacks is the request, up to its type byte, exactly if a leave
request reads the same with bytes 4 to 7 reversed. -/
theorem request_round_trip_iff (m : RequestMemory) :
    (unPack .little (pack .little m.type m.bytes)).1 = some m.type ∧
        (unPack .little (pack .little m.type m.bytes)).2.drop 1 = m.bytes.drop 1 ↔
      (m.type = .leaveConversationReq →
        m.bytes[4]? = m.bytes[7]? ∧ m.bytes[5]? = m.bytes[6]?) := by
  obtain ⟨b0, b1, b2, b3, b4, b5, b6, b7, rest, hb⟩ := m.eight_bytes
  have ht := m.supported
  simp only [requestTypes, List.mem_cons, List.not_mem_nil, or_false] at ht
  rw [hb]
  rcases ht with ht | ht | ht | ht | ht
  · simp [ht, pack, unPack]
  · simp [ht, pack, unPack]
  · simp [ht, pack, unPack]
  · simp [ht, pack, unPack]
  · simp only [ht, pack, packAns, List.set_cons_zero, convertAnswer_little, unPack,
      List.getD_cons_zero, ProtocolType.ofByte_toByte]
    constructor
    · intro h _
      simp only [true_and, List.drop_succ_cons, List.drop_zero, List.cons.injEq] at h
      simp [h.2.2.1, h.2.2.2.1]
    · intro h
      have h' := h trivial
      simp only [List.getElem?_cons_succ, List.getElem?_cons_zero, Option.some.injEq] at h'
      simp [h'.1, h'.2]

/-- The leave request for the group `abcdef` arrives as one for `abc`. -/
theorem request_round_trip_fails :
    ¬ ∀ m : RequestMemory,
      (unPack .little (pack .little m.type m.bytes)).1 = some m.type ∧
        (unPack .little (pack .little m.type m.bytes)).2.drop 1 = m.bytes.drop 1 := by
  intro h
  have hleave := h ⟨.leaveConversationReq, by decide,
    [12] ++ ([97, 98, 99, 100, 101, 102] ++ List.replicate 12 0) ++ List.replicate 17 0, rfl⟩
  revert hleave
  decide

def answerTypes : List ProtocolType :=
  [.registerAns, .loginAns, .createGroupConversationAns, .joinConversationAns,
    .leaveConversationAns]

def answerOffset : ProtocolType → ℕ
  | .registerAns | .loginAns => registerAnsAnswer
  | _ => createGroupAnsAnswer

/-- The memory of an answer struct of the server, with any contents beyond its type. -/
structure AnswerMemory where
  type : ProtocolType
  produced : type ∈ answerTypes
  bytes : Bytes
  size : bytes.length = answerOffset type + 4
  typed : bytes[0]? = some type.toByte

theorem answerOffset_pos (t : ProtocolType) : 0 < answerOffset t := by
  cases t <;> simp [answerOffset, registerAnsAnswer, createGroupAnsAnswer]

theorem AnswerMemory.split (m : AnswerMemory) : ∃ pre w,
    m.bytes = m.type.toByte :: pre ++ w ∧ pre.length + 1 = answerOffset m.type ∧ w.length = 4 := by
  have ht := m.typed
  have hs := m.size
  have hpos := answerOffset_pos m.type
  match hb : m.bytes with
  | [] => simp [hb] at ht
  | b :: bs =>
    simp only [hb, List.getElem?_cons_zero, Option.some.injEq] at ht
    simp only [hb, List.length_cons] at hs
    refine ⟨bs.take (answerOffset m.type - 1), bs.drop (answerOffset m.type - 1), ?_, ?_, ?_⟩
    · rw [ht, List.cons_append, List.take_append_drop]
    · rw [List.length_take]
      omega
    · rw [List.length_drop]
      omega

theorem pack_answer (bo : ByteOrder) {t : ProtocolType} (ht : t ∈ answerTypes)
    (hne : t ≠ .leaveConversationAns) (rest : Bytes) :
    pack bo t (t.toByte :: rest) = convertAnswer bo (t.toByte :: rest) (answerOffset t) := by
  cases t <;> simp_all [answerTypes, pack, packAns, answerOffset]

theorem unPack_answer (bo : ByteOrder) {t : ProtocolType} (ht : t ∈ answerTypes) (rest : Bytes) :
    unPack bo (t.toByte :: rest) =
      (some t, convertAnswer bo (t.toByte :: rest) (answerOffset t)) := by
  cases t <;> simp_all [answerTypes, unPack, answerOffset]

theorem load32_append (bo : ByteOrder) (pre w : Bytes) {off : ℕ} (hpre : pre.length = off) :
    load32 bo (pre ++ w) off = ofBytes bo w := by
  rw [load32, ← hpre, List.drop_left]

theorem ofBytes_swap {w : Bytes} (hw : w.length = 4) (bo : ByteOrder) :
    htonl bo (ofBytes bo w) = ofBytes .big w := by
  match w, hw with
  | [w0, w1, w2, w3], _ => rw [htonl_eq_ofBytes, wordBytes_ofBytes]

theorem client_reads (client : ByteOrder) (pre w beyond : Bytes) {off : ℕ}
    (hpre : pre.length = off) (hw : w.length = 4) :
    load32 client (convertAnswer client (pre ++ (w ++ beyond)) off) off = ofBytes .big w := by
  rw [convertAnswer_append client pre w beyond off hpre hw, load32_append client _ _ hpre,
    ofBytes_swap hw]
  exact ofBytes_wordBytes client (ofBytes .big w) beyond

theorem pack_answer_split (server : ByteOrder) {t : ProtocolType} (ht : t ∈ answerTypes)
    (pre : Bytes) {w : Bytes} (hpre : pre.length + 1 = answerOffset t) (hw : w.length = 4) :
    ∃ w', w'.length = 4 ∧ pack server t (t.toByte :: pre ++ w) = t.toByte :: pre ++ w' ∧
      ofBytes .big w' = if t = .leaveConversationAns then ofBytes .big w
        else ofBytes server w := by
  by_cases hl : t = .leaveConversationAns
  · exact ⟨w, hw, by simp [hl, pack], by simp [hl]⟩
  · refine ⟨wordBytes .big (ofBytes server w), rfl, ?_, ?_⟩
    · have hc := convertAnswer_append server (t.toByte :: pre) w [] _ hpre hw
      rw [List.append_nil, List.append_nil, wordBytes_htonl] at hc
      rw [List.cons_append, pack_answer server ht hl, ← List.cons_append, hc]
    · simpa [hl] using ofBytes_wordBytes .big (ofBytes server w) []

/-- Before the answer field nothing changes, and the answer the client reads is the one
the server wrote, or, in a leave answer, its bytes in network order. -/
theorem read_answer (server client : ByteOrder) {t : ProtocolType} (ht : t ∈ answerTypes)
    (pre : Bytes) {w : Bytes} (beyond : Bytes) (hpre : pre.length + 1 = answerOffset t)
    (hw : w.length = 4) :
    (unPack client (pack server t (t.toByte :: pre ++ w) ++ beyond)).1 = some t ∧
      (unPack client (pack server t (t.toByte :: pre ++ w) ++ beyond)).2.take (answerOffset t) =
        t.toByte :: pre ∧
      load32 client (unPack client (pack server t (t.toByte :: pre ++ w) ++ beyond)).2
          (answerOffset t) =
        if t = .leaveConversationAns then ofBytes .big w else ofBytes server w := by
  obtain ⟨w', hw', hpack, hread⟩ := pack_answer_split server ht pre hpre hw
  have hhd : (t.toByte :: pre).length = answerOffset t := hpre
  rw [hpack, List.append_assoc, List.cons_append, unPack_answer client ht, ← List.cons_append,
    client_reads client _ _ _ hhd hw', hread]
  refine ⟨rfl, ?_, rfl⟩
  rw [convertAnswer_append client _ w' beyond _ hhd hw', ← hhd, List.take_left]

/-- Before the answer field nothing changes; the answer the client reads is the one the
server wrote unless a little-endian server sends a leave answer whose four bytes are not
a palindrome. -/
theorem answer_round_trip_iff (server client : ByteOrder) (m : AnswerMemory) :
    ((unPack client (pack server m.type m.bytes)).1 = some m.type ∧
        (unPack client (pack server m.type m.bytes)).2.take (answerOffset m.type) =
          m.bytes.take (answerOffset m.type) ∧
        load32 client (unPack client (pack server m.type m.bytes)).2 (answerOffset m.type) =
          load32 server m.bytes (answerOffset m.type)) ↔
      (m.type = .leaveConversationAns → server = .little →
        htonl .little (load32 server m.bytes (answerOffset m.type)) =
          load32 server m.bytes (answerOffset m.type)) := by
  obtain ⟨pre, w, hb, hpre, hw⟩ := m.split
  have hhd : (m.type.toByte :: pre).length = answerOffset m.type := hpre
  have htake : m.bytes.take (answerOffset m.type) = m.type.toByte :: pre := by
    rw [hb, ← hhd, List.take_left]
  have hload : load32 server m.bytes (answerOffset m.type) = ofBytes server w := by
    rw [hb, load32_append server _ _ hhd]
  obtain ⟨htype, hbefore, hread⟩ := read_answer server client m.produced pre [] hpre hw
  rw [List.append_nil, ← hb] at htype hbefore hread
  rw [htype, hbefore, hread, htake, hload]
  by_cases hl : m.type = .leaveConversationAns
  · cases server with
    | little => simp [hl, ofBytes_swap hw .little]
    | big => simp [hl]
  · simp [hl]

/-- The leave answer 9 of a little-endian server reaches the client as `0x09000000`. -/
theorem answer_round_trip_fails :
    ¬ ∀ (server client : ByteOrder) (m : AnswerMemory),
      (unPack client (pack server m.type m.bytes)).1 = some m.type ∧
        (unPack client (pack server m.type m.bytes)).2.take (answerOffset m.type) =
          m.bytes.take (answerOffset m.type) ∧
        load32 client (unPack client (pack server m.type m.bytes)).2 (answerOffset m.type) =
          load32 server m.bytes (answerOffset m.type) := by
  intro h
  have hleave := h .little .little ⟨.leaveConversationAns, by decide,
    [13] ++ List.replicate 19 0 ++ [9, 0, 0, 0], rfl, rfl⟩
  revert hleave
  decide

end ChatProject.Protocol
