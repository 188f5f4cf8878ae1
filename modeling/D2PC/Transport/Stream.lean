import D2PC.Lib.Bytes

/-!
# Messages in a byte stream

`TCPTransport::SendMessageInternal` and `TCPTransport::TCPReadableCallback` of
`lib/tcptransport.cc`. Each message is written with a header that holds its length. The bytes of
a connection arrive in chunks of any size; after each of them the receiver takes whole messages
out of its buffer. The `evbuffer` is a queue of bytes.

* `sendMessageInternal` : the bytes of a message;
* `readableCallback` : what the receiver does with its buffer;
* `Delivered` : the messages whose last byte has arrived;
* `chunks_dispatched` : after any chunks the receiver has dispatched exactly these.
-/

namespace D2PC.TcpTransport

open Bytes

/-- `sizeof(size_t)`. -/
def sizeofSizeT : ℕ := 8

/-- `sizeof(uint32_t)`. -/
def sizeofUint32 : ℕ := 4

/-- `MAGIC`. -/
def magic : ℕ := 0x06121983

/-- `totalLen` of `SendMessageInternal`. -/
def totalLen (type data : Bytes) : ℕ :=
  type.length + sizeofSizeT + data.length + sizeofSizeT + sizeofSizeT + sizeofUint32

/-- A message: the name of its type and its data. It is shorter than what the receiver asserts. -/
structure Message where
  type : Bytes
  data : Bytes
  fits : totalLen type data < 1073741826

/-- What the receiver is given of a message. -/
def Message.content (m : Message) : Bytes × Bytes := (m.type, m.data)

/-- `SendMessageInternal`: what is written to the connection. -/
def sendMessageInternal (m : Message) : Bytes :=
  word sizeofUint32 magic ++ (word sizeofSizeT (totalLen m.type m.data) ++
    (word sizeofSizeT m.type.length ++ (m.type ++ (word sizeofSizeT m.data.length ++ m.data))))

/-- The message in a buffer of its length. There is none when the buffer is read past its end. -/
def parseMessage (buf : Bytes) : Option (Bytes × Bytes) := do
  let (_, rest) ← readBytes (sizeofSizeT + sizeofUint32) buf
  let (typeLen, rest) ← readWord sizeofSizeT rest
  let (msgType, rest) ← readBytes typeLen rest
  let (msgLen, rest) ← readWord sizeofSizeT rest
  let (msg, _) ← readBytes msgLen rest
  some (msgType, msg)

/-- How a round of the loop ends: the callback returns, or reads past the end of a buffer, or
has taken out a message. -/
inductive Round where
  | wait
  | astray
  | message (content : Bytes × Bytes) (evbuf : Bytes)

/-- One round of the loop of `TCPReadableCallback`. The assertions are not compiled in: the magic
number is not looked at. -/
def round (evbuf : Bytes) : Round :=
  match readWord sizeofUint32 evbuf with
  | none => .wait
  | some (_, rest) =>
      match readWord sizeofSizeT rest with
      | none => .wait
      | some (totalSize, _) =>
          if evbuf.length < totalSize then .wait
          else
            match parseMessage (evbuf.take totalSize) with
            | none => .astray
            | some content => .message content (evbuf.drop totalSize)

theorem length_of_readBytes {n : ℕ} {bs bs' rest : Bytes} (h : readBytes n bs = some (bs', rest)) :
    n ≤ bs.length ∧ rest.length = bs.length - n := by
  unfold readBytes at h
  split at h
  · rename_i hle
    cases h
    exact ⟨hle, List.length_drop⟩
  · cases h

theorem length_of_parseMessage {buf : Bytes} {content : Bytes × Bytes}
    (h : parseMessage buf = some content) : sizeofSizeT + sizeofUint32 ≤ buf.length := by
  unfold parseMessage at h
  cases hread : readBytes (sizeofSizeT + sizeofUint32) buf with
  | none =>
      rw [hread] at h
      cases h
  | some p => exact (length_of_readBytes hread).1

/-- A message that is taken out leaves the buffer shorter. -/
theorem round_shrinks {evbuf rest : Bytes} {content : Bytes × Bytes}
    (h : round evbuf = .message content rest) : rest.length < evbuf.length := by
  unfold round at h
  split at h
  · cases h
  · split at h
    · cases h
    · rename_i totalSize _ _
      split at h
      · cases h
      · rename_i hlen
        split at h
        · cases h
        · rename_i hparse
          cases h
          have hpos := length_of_parseMessage hparse
          rw [List.length_take] at hpos
          have hsizes : 0 < sizeofSizeT + sizeofUint32 := by decide
          rw [List.length_drop]
          omega

/-- The loop of `TCPReadableCallback`: what is left in the buffer and what was dispatched. -/
def readableCallback (evbuf : Bytes) : Option (Bytes × List (Bytes × Bytes)) :=
  match _h : round evbuf with
  | .wait => some (evbuf, [])
  | .astray => none
  | .message content rest => do
      let (evbuf, out) ← readableCallback rest
      some (evbuf, content :: out)
termination_by evbuf.length
decreasing_by exact round_shrinks _h

/-- The bytes of a connection arrive in chunks, each followed by a run of the callback. -/
def receiveChunks (evbuf : Bytes) : List Bytes → Option (Bytes × List (Bytes × Bytes))
  | [] => some (evbuf, [])
  | chunk :: chunks => do
      let (evbuf, out) ← readableCallback (evbuf ++ chunk)
      let (evbuf, out') ← receiveChunks evbuf chunks
      some (evbuf, out ++ out')

/-- What is written to a connection for a sequence of messages. -/
def stream (ms : List Message) : Bytes := ms.flatMap sendMessageInternal

/-! ### One message -/

theorem length_sendMessageInternal (m : Message) :
    (sendMessageInternal m).length = totalLen m.type m.data := by
  simp only [sendMessageInternal, List.length_append, length_word, totalLen]
  omega

theorem length_lt_word {n : ℕ} (h : n < 1073741826) : n < 256 ^ sizeofSizeT :=
  h.trans (by decide)

theorem parseMessage_sendMessageInternal (m : Message) :
    parseMessage (sendMessageInternal m) = some m.content := by
  have hfits := m.fits
  have htype : m.type.length < 256 ^ sizeofSizeT := length_lt_word (by unfold totalLen at hfits; omega)
  have hdata : m.data.length < 256 ^ sizeofSizeT := length_lt_word (by unfold totalLen at hfits; omega)
  have hend := readBytes_append m.data []
  rw [List.append_nil] at hend
  -- the magic number and the length of the message are skipped together
  have hskip := readBytes_append
    (word sizeofUint32 magic ++ word sizeofSizeT (totalLen m.type m.data))
    (word sizeofSizeT m.type.length ++ (m.type ++ (word sizeofSizeT m.data.length ++ m.data)))
  rw [List.length_append, length_word, length_word, List.append_assoc,
    Nat.add_comm sizeofUint32] at hskip
  simp only [parseMessage, sendMessageInternal, hskip, readWord_append htype, readBytes_append,
    readWord_append hdata, hend, Option.bind_eq_bind, Option.bind_some]
  rfl

/-- The magic number and the length of a message. -/
def header (m : Message) : Bytes :=
  word sizeofUint32 magic ++ word sizeofSizeT (totalLen m.type m.data)

theorem header_begins (m : Message) : header m <+: sendMessageInternal m := by
  rw [header, sendMessageInternal, ← List.append_assoc]
  exact List.prefix_append _ _

/-- A buffer that starts with a header. -/
theorem round_header {m : Message} {evbuf : Bytes} (h : header m <+: evbuf) :
    round evbuf =
      if evbuf.length < totalLen m.type m.data then .wait
      else
        match parseMessage (evbuf.take (totalLen m.type m.data)) with
        | none => .astray
        | some content => .message content (evbuf.drop (totalLen m.type m.data)) := by
  obtain ⟨rest, rfl⟩ := h
  have hmagic : magic < 256 ^ sizeofUint32 := by decide
  have hread := readWord_append hmagic (word sizeofSizeT (totalLen m.type m.data) ++ rest)
  rw [← List.append_assoc, ← header] at hread
  rw [round, hread]
  simp only [readWord_append (length_lt_word m.fits)]

/-- **A whole message** at the front of the buffer is taken out. -/
theorem round_sendMessageInternal (m : Message) (rest : Bytes) :
    round (sendMessageInternal m ++ rest) = .message m.content rest := by
  have hlen := length_sendMessageInternal m
  have hge : ¬ (sendMessageInternal m ++ rest).length < totalLen m.type m.data := by
    rw [List.length_append, hlen]
    omega
  rw [round_header ((header_begins m).trans (List.prefix_append _ _)), if_neg hge, ← hlen,
    List.take_left, List.drop_left, parseMessage_sendMessageInternal]

/-- **A part of a message** waits for the rest. -/
theorem round_part {m : Message} {p : Bytes} (hp : p <+: sendMessageInternal m)
    (hlt : p.length < (sendMessageInternal m).length) : round p = .wait := by
  rw [length_sendMessageInternal] at hlt
  rcases Nat.lt_or_ge p.length (header m).length with hshort | hlong
  · -- the header is not complete
    rw [header, List.length_append, length_word, length_word] at hshort
    unfold round readWord readBytes
    by_cases hmagic : sizeofUint32 ≤ p.length
    · have hnone : ¬ sizeofSizeT ≤ (p.drop sizeofUint32).length := by
        rw [List.length_drop]
        omega
      simp only [if_pos hmagic, if_neg hnone, Option.map_some, Option.map_none]
    · simp only [if_neg hmagic, Option.map_none]
  · have hheader := List.prefix_of_prefix_length_le (header_begins m) hp hlong
    rw [round_header hheader, if_pos hlt]

/-! ### A sequence of messages -/

@[simp] theorem stream_cons (m : Message) (ms : List Message) :
    stream (m :: ms) = sendMessageInternal m ++ stream ms := List.flatMap_cons

/-- The buffer holds a part of the message that comes next, or nothing. -/
def Partial (ms : List Message) (p : Bytes) : Prop :=
  p <+: stream ms ∧ ∀ m, ms.head? = some m → p.length < (sendMessageInternal m).length

theorem Partial.round {ms : List Message} {p : Bytes} (h : Partial ms p) : round p = .wait := by
  obtain ⟨hbegins, hlt⟩ := h
  cases ms with
  | nil =>
      rw [List.prefix_nil.1 hbegins]
      rfl
  | cons m ms =>
      have hlt := hlt m rfl
      rw [stream_cons] at hbegins
      exact round_part (List.prefix_of_prefix_length_le hbegins (List.prefix_append _ _)
        (le_of_lt hlt)) hlt

/-- **A run of the callback** takes out all messages that are complete. -/
theorem readableCallback_stream (ms : List Message) {ms' : List Message} {p : Bytes}
    (h : Partial ms' p) :
    readableCallback (stream ms ++ p) = some (p, ms.map Message.content) := by
  induction ms with
  | nil =>
      rw [readableCallback]
      show (match _h : round p with
        | .wait => some (p, [])
        | .astray => none
        | .message content rest => _) = _
      split
      · rfl
      · rename_i hround
        rw [h.round] at hround
        cases hround
      · rename_i hround
        rw [h.round] at hround
        cases hround
  | cons m ms ih =>
      have hround := round_sendMessageInternal m (stream ms ++ p)
      rw [← List.append_assoc, ← stream_cons] at hround
      rw [readableCallback]
      split
      · rename_i hround'
        rw [hround] at hround'
        cases hround'
      · rename_i hround'
        rw [hround] at hround'
        cases hround'
      · rename_i hround'
        rw [hround] at hround'
        cases hround'
        rw [ih]
        rfl

/-- What has arrived of a stream: whole messages, and a part of the next one. -/
theorem split_stream {ms : List Message} {b : Bytes} (hb : b <+: stream ms) :
    ∃ k p, k ≤ ms.length ∧ b = stream (ms.take k) ++ p ∧ Partial (ms.drop k) p := by
  induction ms generalizing b with
  | nil => exact ⟨0, b, le_rfl, rfl, hb, fun m hm => by cases hm⟩
  | cons m ms ih =>
      rcases Nat.lt_or_ge b.length (sendMessageInternal m).length with hlt | hge
      · refine ⟨0, b, Nat.zero_le _, rfl, hb, fun m' hm' => ?_⟩
        obtain rfl := Option.some.inj hm'
        exact hlt
      · rw [stream_cons] at hb
        obtain ⟨b', rfl⟩ := List.prefix_of_prefix_length_le (List.prefix_append _ (stream ms)) hb hge
        obtain ⟨k, p, hk, rfl, hp⟩ := ih ((List.prefix_append_right_inj _).1 hb)
        refine ⟨k + 1, p, Nat.succ_le_succ hk, ?_, hp⟩
        rw [List.take_succ_cons, stream_cons, List.append_assoc]

/-- The messages whose last byte is among the first `n` bytes. -/
def Delivered (ms : List Message) (n k : ℕ) : Prop :=
  k ≤ ms.length ∧ ∀ j, j < ms.length → (j < k ↔ (stream (ms.take (j + 1))).length ≤ n)

theorem stream_append (ms ms' : List Message) : stream (ms ++ ms') = stream ms ++ stream ms' :=
  List.flatMap_append

theorem length_stream_take_le (ms : List Message) {i j : ℕ} (h : i ≤ j) :
    (stream (ms.take i)).length ≤ (stream (ms.take j)).length := by
  obtain ⟨ms', hms'⟩ := List.take_prefix_take_left (l := ms) h
  rw [← hms', stream_append, List.length_append]
  omega

/-- The whole messages in front of a part of the next one are those that were delivered. -/
theorem Partial.delivered {ms : List Message} {k : ℕ} {p : Bytes} (hk : k ≤ ms.length)
    (h : Partial (ms.drop k) p) : Delivered ms ((stream (ms.take k)).length + p.length) k := by
  refine ⟨hk, fun j hj => ⟨fun hlt => ?_, fun hle => ?_⟩⟩
  · have hmono : (stream (ms.take (j + 1))).length ≤ _ := length_stream_take_le ms hlt
    omega
  · by_contra hge
    rw [not_lt] at hge
    have hlt : k < ms.length := lt_of_le_of_lt hge hj
    have hnext := h.2 ms[k] (by rw [List.head?_drop, List.getElem?_eq_getElem hlt])
    have hmono : _ ≤ (stream (ms.take (j + 1))).length :=
      length_stream_take_le ms (Nat.succ_le_succ hge)
    rw [List.take_succ_eq_append_getElem hlt, stream_append, List.length_append] at hmono
    have hone : stream [ms[k]] = sendMessageInternal ms[k] := List.append_nil _
    rw [hone] at hmono
    omega

/-- **A run of chunks** from a buffer with a part of the next message. -/
theorem receiveChunks_stream {ms : List Message} {p : Bytes} (hp : Partial ms p)
    {chunks : List Bytes} (hchunks : p ++ chunks.flatten <+: stream ms) :
    ∃ k evbuf, k ≤ ms.length ∧
      receiveChunks p chunks = some (evbuf, (ms.take k).map Message.content) ∧
      p ++ chunks.flatten = stream (ms.take k) ++ evbuf ∧ Partial (ms.drop k) evbuf := by
  induction chunks generalizing ms p with
  | nil => exact ⟨0, p, Nat.zero_le _, rfl, List.append_nil p, hp⟩
  | cons chunk chunks ih =>
      rw [List.flatten_cons, ← List.append_assoc] at hchunks ⊢
      obtain ⟨k, p', hk, hsplit, hp'⟩ := split_stream ((List.prefix_append _ _).trans hchunks)
      have hstream : stream ms = stream (ms.take k) ++ stream (ms.drop k) := by
        rw [← stream_append, List.take_append_drop]
      rw [hsplit, List.append_assoc] at hchunks ⊢
      rw [hstream, List.prefix_append_right_inj] at hchunks
      obtain ⟨k', evbuf, hk', hreceive, hrest, hevbuf⟩ := ih hp' hchunks
      rw [List.length_drop] at hk'
      refine ⟨k + k', evbuf, by omega, ?_, ?_, ?_⟩
      · rw [receiveChunks, hsplit, readableCallback_stream _ hp']
        simp only [Option.bind_eq_bind, Option.bind_some, hreceive, List.take_add, List.map_append]
      · rw [hrest, List.take_add, stream_append, List.append_assoc]
      · rw [← List.drop_drop]
        exact hevbuf

/-- **TCP framing.** After any chunks of what is written to a connection, the receiver has
dispatched exactly the messages whose last byte has arrived, in order, each once. -/
theorem chunks_dispatched (ms : List Message) {chunks : List Bytes}
    (hchunks : chunks.flatten <+: stream ms) :
    ∃ evbuf k, receiveChunks [] chunks = some (evbuf, (ms.take k).map Message.content) ∧
      Delivered ms chunks.flatten.length k := by
  have hstart : Partial ms [] := by
    refine ⟨List.nil_prefix, fun m _ => ?_⟩
    rw [length_sendMessageInternal, totalLen]
    exact Nat.succ_pos _
  obtain ⟨k, evbuf, hk, hreceive, hsplit, hpart⟩ := receiveChunks_stream hstart hchunks
  have hdelivered := hpart.delivered hk
  rw [← List.length_append, ← hsplit] at hdelivered
  exact ⟨evbuf, k, hreceive, hdelivered⟩

/-- A message of three bytes. -/
def threeBytes : Message where
  type := [65]
  data := [1, 2]
  fits := by decide

theorem chunks_dispatched_cut :
    ∃ evbuf k, receiveChunks [] [(stream [threeBytes, threeBytes]).take 5,
        ((stream [threeBytes, threeBytes]).drop 5).take 50] =
        some (evbuf, ([threeBytes, threeBytes].take k).map Message.content) ∧
      Delivered [threeBytes, threeBytes] [(stream [threeBytes, threeBytes]).take 5,
        ((stream [threeBytes, threeBytes]).drop 5).take 50].flatten.length k :=
  chunks_dispatched [threeBytes, threeBytes] (by decide)

end D2PC.TcpTransport
