import D2PC.Lib.Bytes
import D2PC.Lib.Table

/-!
# Messages as datagrams

`SerializeMessage`, `UDPTransport::SendMessageInternal`, `DecodePacket` and
`UDPTransport::OnReadable` of `lib/udptransport.cc`. A message is written as one buffer; a
buffer that is too long for a datagram is sent in fragments, which the receiver puts together
in one buffer per sender. The simulated drop and reorder rates are zero.

* `sendMessageInternal` : the datagrams of a message, and the number of the last message sent
  in fragments;
* `onReadable` : what the receiver does with a datagram;
* `dispatches_sent` : whatever arrives of what was sent, every message the receiver dispatches
  was sent to it; and if everything arrives once and in order, it dispatches everything in
  order.
-/

namespace D2PC.UdpTransport

open Bytes

/-- `sizeof(size_t)`, also that of `uint64_t`. -/
def sizeofSizeT : ℕ := 8

/-- `MAX_UDP_MESSAGE_SIZE`. -/
def maxUdpMessageSize : ℕ := 15000

/-- `BUFSIZE` of `OnReadable`. -/
def bufSize : ℕ := 65536

/-- A protobuf message as `SerializeMessage` sees it: the name of its type and its data. They
fit into one buffer, whose length is a `ssize_t`. -/
structure Message where
  type : Bytes
  data : Bytes
  named : type ≠ []
  fits : type.length + sizeofSizeT + data.length + sizeofSizeT < 2 ^ 63

/-- What the receiver is given of a message. -/
def Message.content (m : Message) : Bytes × Bytes := (m.type, m.data)

/-- `SerializeMessage`. -/
def serializeMessage (m : Message) : Bytes :=
  word sizeofSizeT m.type.length ++ (m.type ++ (word sizeofSizeT m.data.length ++ m.data))

/-- The part of a buffer in the fragment that starts at `fragStart`. -/
def part (buf : Bytes) (fragStart : ℕ) : Bytes :=
  buf.piece fragStart (min (buf.length - fragStart) maxUdpMessageSize)

/-- The fragment of a buffer that starts at `fragStart`, with its header. -/
def fragment (buf : Bytes) (msgId fragStart : ℕ) : Bytes :=
  word sizeofSizeT 0 ++ (word sizeofSizeT msgId ++ (word sizeofSizeT fragStart ++
    (word sizeofSizeT buf.length ++ part buf fragStart)))

/-- `numFrags`: the multiples of the fragment size below the length of the buffer. -/
def numFrags (buf : Bytes) : ℕ := (buf.length - 1) / maxUdpMessageSize + 1

/-- The fragments of a buffer. -/
def fragments (buf : Bytes) (msgId : ℕ) : List Bytes :=
  (List.range (numFrags buf)).map fun i => fragment buf msgId (i * maxUdpMessageSize)

/-- A message that is not sent in one datagram. -/
def Message.Large (m : Message) : Prop := maxUdpMessageSize < (serializeMessage m).length

instance (m : Message) : Decidable m.Large := inferInstanceAs (Decidable (_ < _))

/-- `SendMessageInternal`: the datagrams, and the new `lastFragMsgId`. -/
def sendMessageInternal (lastFragMsgId : ℕ) (m : Message) : List Bytes × ℕ :=
  let buf := serializeMessage m
  if buf.length ≤ maxUdpMessageSize then ([buf], lastFragMsgId)
  else
    let msgId := (lastFragMsgId + 1) % 2 ^ 64
    (fragments buf msgId, msgId)

/-- `DecodePacket`. There is no result when it would read past the end of the packet. -/
def decodePacket (buf : Bytes) : Option (Bytes × Bytes) := do
  let (typeLen, rest) ← readWord sizeofSizeT buf
  let (type, rest) ← readBytes typeLen rest
  let (msgLen, rest) ← readWord sizeofSizeT rest
  let (msg, _) ← readBytes msgLen rest
  some (type, msg)

/-- `UDPTransportFragInfo`: the message that is being put together, 0 for none. -/
structure FragInfo where
  msgId : ℕ := 0
  data : Bytes := []
  deriving DecidableEq

/-- A fragment, after its header has been read. -/
def FragInfo.add (info : FragInfo) (msgId fragStart msgLen : ℕ) (part : Bytes) :
    Option (FragInfo × Option (Bytes × Bytes)) :=
  let info := if info.msgId = 0 then { msgId := msgId, data := [] } else info
  let info := if info.msgId ≠ msgId then { msgId := msgId, data := [] } else info
  if fragStart ≠ info.data.length then some (info, none)
  else
    let info := { info with data := info.data ++ part }
    if info.data.length = msgLen then do
      let packet ← decodePacket info.data
      some ({ msgId := 0, data := [] }, some packet)
    else some (info, none)

/-- One round of the loop of `OnReadable`: a datagram of a sender whose buffer is `info`, and
the message it completes. -/
def FragInfo.receive (info : FragInfo) (datagram : Bytes) :
    Option (FragInfo × Option (Bytes × Bytes)) := do
  let buf := datagram.take bufSize
  let (typeLen, rest) ← readWord sizeofSizeT buf
  if typeLen ≠ 0 then do
    let packet ← decodePacket buf
    some (info, some packet)
  else do
    let (msgId, rest) ← readWord sizeofSizeT rest
    let (fragStart, rest) ← readWord sizeofSizeT rest
    let (msgLen, rest) ← readWord sizeofSizeT rest
    info.add msgId fragStart msgLen rest

section

variable {Addr : Type} [DecidableEq Addr]

/-- `OnReadable` on a datagram: the buffers of all senders, and the message that is dispatched
with its sender. -/
def onReadable (fragInfo : Table Addr FragInfo) (sender : Addr) (datagram : Bytes) :
    Option (Table Addr FragInfo × List (Addr × Bytes × Bytes)) := do
  let (info, packet) ← ((fragInfo.lookup sender).getD {}).receive datagram
  some (fragInfo.insert sender info, packet.toList.map fun p => (sender, p))

/-- `OnReadable` on datagrams as they arrive. -/
def onReadables (fragInfo : Table Addr FragInfo) :
    List (Addr × Bytes) → Option (Table Addr FragInfo × List (Addr × Bytes × Bytes))
  | [] => some (fragInfo, [])
  | (sender, datagram) :: arrivals => do
      let (fragInfo, out) ← onReadable fragInfo sender datagram
      let (fragInfo, out') ← onReadables fragInfo arrivals
      some (fragInfo, out ++ out')

/-- All datagrams of the messages a transport sends, with their destinations. What it sends from
another socket counts as sent elsewhere. -/
def sendAll : ℕ → List (Addr × Message) → List (Addr × Bytes)
  | _, [] => []
  | lastFragMsgId, (dst, m) :: sends =>
      let (datagrams, lastFragMsgId) := sendMessageInternal lastFragMsgId m
      datagrams.map (fun d => (dst, d)) ++ sendAll lastFragMsgId sends

/-- What has a certain address, of a sender or of a destination. -/
def atAddr {β : Type} (a : Addr) (l : List (Addr × β)) : List β :=
  (l.filter fun p => decide (p.1 = a)).map Prod.snd

/-- What a new transport sends to one destination. -/
def datagramsTo (dst : Addr) (sends : List (Addr × Message)) : List Bytes :=
  atAddr dst (sendAll 0 sends)

end

/-! ### One message -/

theorem length_serializeMessage (m : Message) :
    (serializeMessage m).length =
      m.type.length + sizeofSizeT + m.data.length + sizeofSizeT := by
  simp only [serializeMessage, List.length_append, length_word]
  omega

theorem length_lt_word {n : ℕ} (h : n < 2 ^ 63) : n < 256 ^ sizeofSizeT :=
  h.trans (by decide)

theorem serializeMessage_lt (m : Message) : (serializeMessage m).length < 2 ^ 63 := by
  rw [length_serializeMessage]
  exact m.fits

/-- Decoding a buffer gives back the message. -/
theorem decodePacket_serializeMessage (m : Message) :
    decodePacket (serializeMessage m) = some m.content := by
  have hfits := m.fits
  have htype : m.type.length < 256 ^ sizeofSizeT := length_lt_word (by omega)
  have hdata : m.data.length < 256 ^ sizeofSizeT := length_lt_word (by omega)
  have hend := readBytes_append m.data []
  rw [List.append_nil] at hend
  simp only [decodePacket, serializeMessage, readWord_append htype, readBytes_append,
    readWord_append hdata, hend, Option.bind_eq_bind, Option.bind_some]
  rfl

/-- **A message in one datagram** is dispatched and leaves the buffer as it is. -/
theorem receive_serializeMessage {m : Message} (h : ¬ m.Large) (info : FragInfo) :
    info.receive (serializeMessage m) = some (info, some m.content) := by
  have hfits := m.fits
  have htype : m.type.length < 256 ^ sizeofSizeT := length_lt_word (by omega)
  have hnamed : m.type.length ≠ 0 := fun h0 => m.named (List.length_eq_zero_iff.1 h0)
  have htake : (serializeMessage m).take bufSize = serializeMessage m := by
    rw [List.take_of_length_le]
    exact (not_lt.1 h).trans (by decide)
  have hread : readWord sizeofSizeT (serializeMessage m) = some (m.type.length, _) :=
    readWord_append htype _
  simp only [FragInfo.receive, htake, hread, Option.bind_eq_bind, Option.bind_some,
    if_pos hnamed, decodePacket_serializeMessage]

/-- **A fragment** is read as it was written. -/
theorem receive_fragment {buf : Bytes} {msgId fragStart : ℕ} (hbuf : buf.length < 2 ^ 63)
    (hid : msgId < 2 ^ 64) (hstart : fragStart < 2 ^ 63) (info : FragInfo) :
    info.receive (fragment buf msgId fragStart) =
      info.add msgId fragStart buf.length (part buf fragStart) := by
  have hpart : (part buf fragStart).length ≤ maxUdpMessageSize := by
    rw [part, Bytes.piece, List.length_take]
    omega
  have htake : (fragment buf msgId fragStart).take bufSize = fragment buf msgId fragStart := by
    rw [List.take_of_length_le]
    have hlen : (fragment buf msgId fragStart).length =
        4 * sizeofSizeT + (part buf fragStart).length := by
      simp only [fragment, List.length_append, length_word]
      omega
    have hsize : 4 * sizeofSizeT + maxUdpMessageSize ≤ bufSize := by decide
    omega
  have hzero : (0 : ℕ) < 256 ^ sizeofSizeT := by decide
  have hid' : msgId < 256 ^ sizeofSizeT := hid.trans_le (by decide)
  simp only [FragInfo.receive, htake]
  simp only [fragment, readWord_append hzero, readWord_append hid',
    readWord_append (length_lt_word hstart), readWord_append (length_lt_word hbuf),
    Option.bind_eq_bind, Option.bind_some, ne_eq, not_true_eq_false, if_false]

/-! ### Putting fragments together -/

/-- What the receiver holds already of a message. -/
def FragInfo.held (info : FragInfo) (msgId : ℕ) : Bytes :=
  if info.msgId = msgId then info.data else []

/-- **A fragment of a numbered message.** It is dropped, appended, or completes the message. -/
theorem FragInfo.add_eq {msgId : ℕ} (hid : msgId ≠ 0) (info : FragInfo) (fragStart msgLen : ℕ)
    (part : Bytes) :
    info.add msgId fragStart msgLen part =
      if fragStart ≠ (info.held msgId).length then
        some ({ msgId := msgId, data := info.held msgId }, none)
      else if (info.held msgId ++ part).length = msgLen then
        (decodePacket (info.held msgId ++ part)).map fun p => ({}, some p)
      else some ({ msgId := msgId, data := info.held msgId ++ part }, none) := by
  obtain ⟨id, data⟩ := info
  have hbind : ∀ o : Option (Bytes × Bytes), (do
      let packet ← o
      some (({ msgId := 0, data := [] } : FragInfo), some packet)) =
        o.map fun p => ({}, some p) := by
    intro o
    cases o with
    | none => rfl
    | some p => rfl
  by_cases hzero : id = 0
  · subst hzero
    simp only [FragInfo.add, FragInfo.held, if_true, if_neg (Ne.symm hid), ne_eq,
      not_true_eq_false, if_false, hbind]
  · by_cases heq : id = msgId
    · subst heq
      simp only [FragInfo.add, FragInfo.held, if_neg hzero, ne_eq, not_true_eq_false, if_false,
        if_true, hbind]
    · simp only [FragInfo.add, FragInfo.held, if_neg hzero, ne_eq, heq, not_false_eq_true, if_true,
        if_false, hbind]

/-- The buffer of a sender is empty, or holds the beginning of a message with that number. -/
def Holding (known : ℕ → Message → Prop) (info : FragInfo) : Prop :=
  info.msgId = 0 ∨ ∃ m, known info.msgId m ∧ info.data <+: serializeMessage m

variable {known : ℕ → Message → Prop} {info : FragInfo} {msgId : ℕ} {m : Message}

theorem Holding.held_prefix (h : Holding known info) (hid : msgId ≠ 0)
    (hfun : ∀ m', known msgId m' → m' = m) : info.held msgId <+: serializeMessage m := by
  unfold FragInfo.held
  split_ifs with heq
  · rcases h with hzero | ⟨m', hm', hprefix⟩
    · exact absurd (heq.symm.trans hzero) hid
    · rw [heq] at hm'
      rw [← hfun m' hm']
      exact hprefix
  · exact List.nil_prefix

/-- **A fragment that was sent**, whatever the buffer holds, completes the message it is of or
none. -/
theorem Holding.receive_fragment (h : Holding known info) (hid : msgId ≠ 0)
    (hlt : msgId < 2 ^ 64) (hm : known msgId m) (hfun : ∀ m', known msgId m' → m' = m)
    {fragStart : ℕ} (hstart : fragStart < 2 ^ 63) :
    ∃ info' packet, info.receive (fragment (serializeMessage m) msgId fragStart) =
      some (info', packet) ∧ Holding known info' ∧ ∀ p ∈ packet, p = m.content := by
  have hheld := h.held_prefix hid hfun
  rw [UdpTransport.receive_fragment (serializeMessage_lt m) hlt hstart, FragInfo.add_eq hid]
  split_ifs with hskip hfull
  · exact ⟨_, _, rfl, .inr ⟨m, hm, hheld⟩, fun p hp => absurd hp (Option.not_mem_none p)⟩
  · rw [not_not] at hskip
    have hprefix : info.held msgId ++ part (serializeMessage m) fragStart <+:
        serializeMessage m := by
      rw [hskip]
      exact prefix_piece hheld _
    -- a prefix as long as the buffer is the buffer
    have heq := hprefix.eq_of_length hfull
    rw [heq, decodePacket_serializeMessage]
    exact ⟨_, _, rfl, .inl rfl, fun p hp => (Option.some.inj hp).symm⟩
  · rw [not_not] at hskip
    refine ⟨_, _, rfl, .inr ⟨m, hm, ?_⟩, fun p hp => absurd hp (Option.not_mem_none p)⟩
    rw [hskip]
    exact prefix_piece hheld _

/-- The datagrams of one sender as they arrive. -/
def FragInfo.receiveAll (info : FragInfo) : List Bytes → Option (FragInfo × List (Bytes × Bytes))
  | [] => some (info, [])
  | datagram :: arrivals => do
      let (info, packet) ← info.receive datagram
      let (info, out) ← info.receiveAll arrivals
      some (info, packet.toList ++ out)

theorem receiveAll_append {info' info'' : FragInfo} {ds ds' : List Bytes}
    {out out' : List (Bytes × Bytes)} (h : info.receiveAll ds = some (info', out))
    (h' : info'.receiveAll ds' = some (info'', out')) :
    info.receiveAll (ds ++ ds') = some (info'', out ++ out') := by
  induction ds generalizing info out with
  | nil =>
      obtain ⟨rfl, rfl⟩ := Prod.mk.inj (Option.some.inj h)
      exact h'
  | cons d ds ih =>
      simp only [FragInfo.receiveAll, Option.bind_eq_bind, Option.bind_eq_some_iff,
        Option.some.injEq, Prod.mk.injEq] at h
      obtain ⟨⟨i, p⟩, hp, ⟨i', o⟩, ho, rfl, rfl⟩ := h
      simp only [List.cons_append, FragInfo.receiveAll, hp, ih ho, Option.bind_eq_bind,
        Option.bind_some, List.append_assoc]

theorem receiveAll_singleton {info' : FragInfo} {d : Bytes} {packet : Option (Bytes × Bytes)}
    (h : info.receive d = some (info', packet)) :
    info.receiveAll [d] = some (info', packet.toList) := by
  simp only [FragInfo.receiveAll, h, Option.bind_eq_bind, Option.bind_some, List.append_nil]

theorem mul_maxUdpMessageSize_lt {buf : Bytes} (hbuf : buf ≠ []) {k : ℕ} (hk : k < numFrags buf) :
    k * maxUdpMessageSize < buf.length := by
  have hpos : 0 < buf.length := List.length_pos_iff.2 hbuf
  have hle : k ≤ (buf.length - 1) / maxUdpMessageSize := Nat.lt_succ_iff.1 hk
  have hmul := (Nat.le_div_iff_mul_le (by decide)).1 hle
  omega

theorem length_le_numFrags_mul (buf : Bytes) :
    buf.length ≤ numFrags buf * maxUdpMessageSize := by
  have hdiv : buf.length - 1 < numFrags buf * maxUdpMessageSize :=
    Nat.lt_mul_of_div_lt (Nat.lt_succ_self _) (by decide)
  omega

theorem serializeMessage_ne_nil (m : Message) : serializeMessage m ≠ [] := by
  have hlen := length_serializeMessage m
  intro hnil
  rw [hnil, List.length_nil] at hlen
  have hsize : sizeofSizeT = 8 := rfl
  omega

/-- The fragments before the last one. -/
theorem receiveAll_front (hinfo : info.msgId = 0) (hid : msgId ≠ 0) (hlt : msgId < 2 ^ 64)
    (m : Message) {k : ℕ} (hk : k < numFrags (serializeMessage m)) :
    ∃ info', info.receiveAll ((List.range k).map fun i =>
        fragment (serializeMessage m) msgId (i * maxUdpMessageSize)) = some (info', []) ∧
      info'.held msgId = (serializeMessage m).take (k * maxUdpMessageSize) := by
  induction k with
  | zero =>
      refine ⟨info, rfl, ?_⟩
      rw [FragInfo.held, if_neg (by rw [hinfo]; exact Ne.symm hid), Nat.zero_mul, List.take_zero]
  | succ k ih =>
      obtain ⟨info', hrun, hheld⟩ := ih (by omega)
      have hnext := mul_maxUdpMessageSize_lt (serializeMessage_ne_nil m) hk
      have hsucc : (k + 1) * maxUdpMessageSize = k * maxUdpMessageSize + maxUdpMessageSize :=
        Nat.succ_mul ..
      have hlen : (info'.held msgId).length = k * maxUdpMessageSize := by
        rw [hheld, List.length_take]
        omega
      have hpart : info'.held msgId ++ part (serializeMessage m) (k * maxUdpMessageSize) =
          (serializeMessage m).take ((k + 1) * maxUdpMessageSize) := by
        rw [hheld, part, take_append_piece, hsucc, Nat.min_eq_right (by omega)]
      have hreceive : info'.receive (fragment (serializeMessage m) msgId (k * maxUdpMessageSize)) =
          some ({ msgId := msgId
                  data := (serializeMessage m).take ((k + 1) * maxUdpMessageSize) }, none) := by
        have hbuf := serializeMessage_lt m
        rw [receive_fragment hbuf hlt (by omega), FragInfo.add_eq hid, if_neg (not_not.2 hlen.symm),
          hpart, if_neg]
        rw [List.length_take]
        omega
      rw [List.range_succ, List.map_append]
      refine ⟨_, receiveAll_append hrun (receiveAll_singleton hreceive), ?_⟩
      rw [FragInfo.held, if_pos rfl]

/-- **All fragments in order** complete the message, and leave the buffer empty. -/
theorem receiveAll_fragments (hinfo : info.msgId = 0) (hid : msgId ≠ 0) (hlt : msgId < 2 ^ 64)
    (m : Message) :
    ∃ info', info'.msgId = 0 ∧
      info.receiveAll (fragments (serializeMessage m) msgId) = some (info', [m.content]) := by
  obtain ⟨q, hq⟩ : ∃ q, numFrags (serializeMessage m) = q + 1 := ⟨_, rfl⟩
  obtain ⟨info', hrun, hheld⟩ := receiveAll_front hinfo hid hlt m (k := q) (by omega)
  have hbelow := mul_maxUdpMessageSize_lt (serializeMessage_ne_nil m) (k := q) (by omega)
  have habove := length_le_numFrags_mul (serializeMessage m)
  rw [hq, Nat.succ_mul] at habove
  have hlen : (info'.held msgId).length = q * maxUdpMessageSize := by
    rw [hheld, List.length_take]
    omega
  have hpart : info'.held msgId ++ part (serializeMessage m) (q * maxUdpMessageSize) =
      serializeMessage m := by
    rw [hheld, part, take_append_piece, List.take_of_length_le]
    omega
  have hreceive : info'.receive (fragment (serializeMessage m) msgId (q * maxUdpMessageSize)) =
      some ({}, some m.content) := by
    have hbuf := serializeMessage_lt m
    rw [receive_fragment hbuf hlt (by omega), FragInfo.add_eq hid, if_neg (not_not.2 hlen.symm),
      hpart, if_pos rfl, decodePacket_serializeMessage, Option.map_some]
  refine ⟨{}, rfl, ?_⟩
  rw [fragments, hq, List.range_succ, List.map_append]
  exact receiveAll_append hrun (receiveAll_singleton hreceive)

/-! ### The sender -/

section

variable {Addr : Type}

/-- The messages sent in fragments, with their numbers. -/
def issued : ℕ → List (Addr × Message) → List (ℕ × Addr × Message)
  | _, [] => []
  | lastFragMsgId, (dst, m) :: sends =>
      if m.Large then
        ((lastFragMsgId + 1) % 2 ^ 64, dst, m) :: issued ((lastFragMsgId + 1) % 2 ^ 64) sends
      else issued lastFragMsgId sends

/-- How many messages are sent in fragments. -/
def numLarge (sends : List (Addr × Message)) : ℕ := sends.countP fun p => decide p.2.Large

variable {last : ℕ} {sends : List (Addr × Message)}

/-- **The numbers.** As long as there are enough of them, they increase. -/
theorem issued_increasing (h : last + numLarge sends < 2 ^ 64) :
    (∀ p ∈ issued last sends, last < p.1 ∧ p.1 < 2 ^ 64) ∧
      (issued last sends).Pairwise fun p q => p.1 < q.1 := by
  induction sends generalizing last with
  | nil => exact ⟨fun p hp => absurd hp List.not_mem_nil, List.Pairwise.nil⟩
  | cons p sends ih =>
      obtain ⟨dst, m⟩ := p
      rw [numLarge, List.countP_cons] at h
      by_cases hlarge : m.Large
      · rw [if_pos (decide_eq_true hlarge)] at h
        have hmod : (last + 1) % 2 ^ 64 = last + 1 := Nat.mod_eq_of_lt (by omega)
        have hids : last + 1 + numLarge sends < 2 ^ 64 := by
          rw [numLarge]
          omega
        obtain ⟨hrange, hincr⟩ := ih hids
        rw [issued, if_pos hlarge, hmod]
        refine ⟨fun q hq => ?_, List.pairwise_cons.2 ⟨fun q hq => (hrange q hq).1, hincr⟩⟩
        rcases List.mem_cons.1 hq with rfl | hq
        · show last < last + 1 ∧ last + 1 < 2 ^ 64
          omega
        · have := hrange q hq
          omega
      · rw [if_neg (by simpa using hlarge), Nat.add_zero] at h
        rw [issued, if_neg hlarge]
        exact ih h

theorem issued_unique (h : numLarge sends < 2 ^ 64) {id : ℕ} {x y : Addr × Message}
    (hx : (id, x) ∈ issued 0 sends) (hy : (id, y) ∈ issued 0 sends) : x = y := by
  have hids : 0 + numLarge sends < 2 ^ 64 := by omega
  have hnodup : ((issued 0 sends).map Prod.fst).Nodup :=
    List.pairwise_map.2 ((issued_increasing hids).2.imp fun hlt => Nat.ne_of_lt hlt)
  exact (Prod.mk.inj (List.inj_on_of_nodup_map hnodup hx hy rfl)).2

theorem mem_of_issued {id : ℕ} {x : Addr × Message} (h : (id, x) ∈ issued last sends) :
    x ∈ sends := by
  induction sends generalizing last with
  | nil => cases h
  | cons p sends ih =>
      unfold issued at h
      split_ifs at h
      · rcases List.mem_cons.1 h with heq | h
        · rw [(Prod.mk.inj heq).2]
          exact List.mem_cons_self ..
        · exact List.mem_cons_of_mem _ (ih h)
      · exact List.mem_cons_of_mem _ (ih h)

theorem sendMessageInternal_large {m : Message} (h : m.Large) :
    sendMessageInternal last m =
      (fragments (serializeMessage m) ((last + 1) % 2 ^ 64), (last + 1) % 2 ^ 64) :=
  if_neg (not_le.2 h)

theorem sendMessageInternal_small {m : Message} (h : ¬ m.Large) :
    sendMessageInternal last m = ([serializeMessage m], last) :=
  if_pos (not_lt.1 h)

/-- **What is sent** is a message in one datagram or a fragment of a numbered one. -/
theorem mem_sendAll {dst : Addr} {d : Bytes} (h : (dst, d) ∈ sendAll last sends) :
    (∃ m, (dst, m) ∈ sends ∧ ¬ m.Large ∧ d = serializeMessage m) ∨
      ∃ id m i, (id, dst, m) ∈ issued last sends ∧ i < numFrags (serializeMessage m) ∧
        d = fragment (serializeMessage m) id (i * maxUdpMessageSize) := by
  induction sends generalizing last with
  | nil => cases h
  | cons p sends ih =>
      obtain ⟨dst', m⟩ := p
      by_cases hlarge : m.Large
      · rw [issued, if_pos hlarge]
        simp only [sendAll, sendMessageInternal_large hlarge, List.mem_append, List.mem_map] at h
        rcases h with ⟨d', hd', heq⟩ | h
        · obtain ⟨rfl, rfl⟩ := Prod.mk.inj heq
          obtain ⟨i, hi, rfl⟩ := List.mem_map.1 hd'
          exact .inr ⟨_, m, i, List.mem_cons_self .., List.mem_range.1 hi, rfl⟩
        · rcases ih h with ⟨m', hm', hrest⟩ | ⟨id, m', i, hm', hrest⟩
          · exact .inl ⟨m', List.mem_cons_of_mem _ hm', hrest⟩
          · exact .inr ⟨id, m', i, List.mem_cons_of_mem _ hm', hrest⟩
      · rw [issued, if_neg hlarge]
        simp only [sendAll, sendMessageInternal_small hlarge, List.mem_append, List.mem_map,
          List.mem_singleton] at h
        rcases h with ⟨d', rfl, heq⟩ | h
        · obtain ⟨rfl, rfl⟩ := Prod.mk.inj heq
          exact .inl ⟨m, List.mem_cons_self .., hlarge, rfl⟩
        · rcases ih h with ⟨m', hm', hrest⟩ | hrest
          · exact .inl ⟨m', List.mem_cons_of_mem _ hm', hrest⟩
          · exact .inr hrest

/-! ### The receiver -/

variable [DecidableEq Addr]

theorem mem_atAddr {β : Type} {a : Addr} {x : β} {l : List (Addr × β)} :
    x ∈ atAddr a l ↔ (a, x) ∈ l := by
  simp only [atAddr, List.mem_map, List.mem_filter, decide_eq_true_eq]
  constructor
  · rintro ⟨⟨a', x'⟩, ⟨hmem, rfl⟩, rfl⟩
    exact hmem
  · exact fun hmem => ⟨(a, x), ⟨hmem, rfl⟩, rfl⟩

theorem atAddr_cons {β : Type} (a a' : Addr) (x : β) (l : List (Addr × β)) :
    atAddr a ((a', x) :: l) = if a' = a then x :: atAddr a l else atAddr a l := by
  simp only [atAddr, List.filter_cons, decide_eq_true_eq]
  split_ifs <;> rfl

theorem atAddr_append {β : Type} (a : Addr) (l l' : List (Addr × β)) :
    atAddr a (l ++ l') = atAddr a l ++ atAddr a l' := by
  rw [atAddr, List.filter_append, List.map_append]
  rfl

theorem atAddr_map {β : Type} (a a' : Addr) (l : List β) :
    atAddr a (l.map fun x => (a', x)) = if a' = a then l else [] := by
  induction l with
  | nil => exact (ite_self _).symm
  | cons x l ih =>
      rw [List.map_cons, atAddr_cons, ih]
      split_ifs <;> rfl

/-- **Whatever arrives** of what one transport sent to `me`, the receiver does not read past a
packet, and every message it dispatches was sent to `me`. -/
theorem receiveAll_sent {me : Addr} (hids : numLarge sends < 2 ^ 64) {info : FragInfo}
    (h : Holding (fun id m => ∃ dst, (id, dst, m) ∈ issued 0 sends) info) {arrivals : List Bytes}
    (hsent : ∀ d ∈ arrivals, d ∈ datagramsTo me sends) :
    ∃ info' out, info.receiveAll arrivals = some (info', out) ∧
      ∀ p ∈ out, ∃ m, (me, m) ∈ sends ∧ p = m.content := by
  induction arrivals generalizing info with
  | nil => exact ⟨info, [], rfl, fun p hp => absurd hp List.not_mem_nil⟩
  | cons d arrivals ih =>
      have hrest : ∀ d' ∈ arrivals, d' ∈ datagramsTo me sends :=
        fun d' hd' => hsent d' (List.mem_cons_of_mem _ hd')
      have hfirst : ∃ info' packet, info.receive d = some (info', packet) ∧
          Holding (fun id m => ∃ dst, (id, dst, m) ∈ issued 0 sends) info' ∧
          ∀ p ∈ packet, ∃ m, (me, m) ∈ sends ∧ p = m.content := by
        have hmem := mem_atAddr.1 (hsent d (List.mem_cons_self ..))
        rcases mem_sendAll hmem with ⟨m, hm, hsmall, heq⟩ | ⟨id, m, i, hm, hi, heq⟩
        · rw [heq]
          refine ⟨info, _, receive_serializeMessage hsmall info, h, fun p hp => ⟨m, hm, ?_⟩⟩
          exact (Option.some.inj hp).symm
        · have hids' : 0 + numLarge sends < 2 ^ 64 := by omega
          obtain ⟨hpos, hlt⟩ := (issued_increasing hids').1 _ hm
          have hstart := mul_maxUdpMessageSize_lt (serializeMessage_ne_nil m) hi
          obtain ⟨info', packet, hreceive, hholding, hpacket⟩ :=
            h.receive_fragment (Nat.pos_iff_ne_zero.1 hpos) hlt ⟨_, hm⟩
              (fun m' ⟨dst', hm'⟩ => (Prod.mk.inj (issued_unique hids hm' hm)).2)
              (hstart.trans (serializeMessage_lt m))
          rw [heq]
          exact ⟨info', packet, hreceive, hholding, fun p hp => ⟨m, mem_of_issued hm, hpacket p hp⟩⟩
      obtain ⟨info', packet, hreceive, hholding, hpacket⟩ := hfirst
      obtain ⟨info'', out, hrun, hout⟩ := ih hholding hrest
      refine ⟨info'', packet.toList ++ out, ?_, fun p hp => ?_⟩
      · simp only [FragInfo.receiveAll, hreceive, hrun, Option.bind_eq_bind, Option.bind_some]
      · rcases List.mem_append.1 hp with hp | hp
        · exact hpacket p (Option.mem_toList.1 hp)
        · exact hout p hp

/-- **Everything in order**: the receiver dispatches what was sent to `me`, in order. -/
theorem receiveAll_inOrder {me : Addr} (hids : last + numLarge sends < 2 ^ 64) {info : FragInfo}
    (hinfo : info.msgId = 0) :
    ∃ info', info'.msgId = 0 ∧
      info.receiveAll (atAddr me (sendAll last sends)) =
        some (info', (atAddr me sends).map Message.content) := by
  induction sends generalizing last info with
  | nil => exact ⟨info, hinfo, rfl⟩
  | cons p sends ih =>
      obtain ⟨dst, m⟩ := p
      rw [numLarge, List.countP_cons] at hids
      -- the datagrams of this message, if they are for `me`, dispatch it
      have hfirst : ∀ info : FragInfo, info.msgId = 0 → ∃ info', info'.msgId = 0 ∧
          info.receiveAll (sendMessageInternal last m).1 = some (info', [m.content]) := by
        intro info hinfo
        by_cases hlarge : m.Large
        · rw [if_pos (decide_eq_true hlarge)] at hids
          have hmod : (last + 1) % 2 ^ 64 = last + 1 := Nat.mod_eq_of_lt (by omega)
          rw [sendMessageInternal_large hlarge, hmod]
          exact receiveAll_fragments hinfo (Nat.succ_ne_zero last) (by omega) m
        · rw [sendMessageInternal_small hlarge]
          exact ⟨info, hinfo, receiveAll_singleton (receive_serializeMessage hlarge info)⟩
      have hids' : (sendMessageInternal last m).2 + numLarge sends < 2 ^ 64 := by
        by_cases hlarge : m.Large
        · rw [if_pos (decide_eq_true hlarge)] at hids
          have hmod : (last + 1) % 2 ^ 64 = last + 1 := Nat.mod_eq_of_lt (by omega)
          rw [sendMessageInternal_large hlarge, hmod, numLarge]
          omega
        · rw [sendMessageInternal_small hlarge, numLarge]
          omega
      by_cases hdst : dst = me
      · obtain ⟨info', hinfo', hrun⟩ := hfirst info hinfo
        obtain ⟨info'', hinfo'', hrest⟩ := ih hids' hinfo'
        refine ⟨info'', hinfo'', ?_⟩
        rw [sendAll, atAddr_append, atAddr_map, if_pos hdst, atAddr_cons, if_pos hdst, List.map_cons]
        exact receiveAll_append hrun hrest
      · rw [sendAll, atAddr_append, atAddr_map, if_neg hdst, List.nil_append, atAddr_cons,
          if_neg hdst]
        exact ih hids' hinfo

/-- **The senders are kept apart.** If the receiver can read what arrives of each sender by
itself, it can read what arrives, and dispatches of each sender what it would by itself. -/
theorem onReadables_eq {fragInfo : Table Addr FragInfo} {arrivals : List (Addr × Bytes)}
    {outs : Addr → List (Bytes × Bytes)}
    (h : ∀ a, ∃ info', ((fragInfo.lookup a).getD {}).receiveAll (atAddr a arrivals) =
      some (info', outs a)) :
    ∃ fragInfo' out, onReadables fragInfo arrivals = some (fragInfo', out) ∧
      ∀ a, atAddr a out = outs a := by
  induction arrivals generalizing fragInfo outs with
  | nil =>
      refine ⟨fragInfo, [], rfl, fun a => ?_⟩
      obtain ⟨info', h⟩ := h a
      exact (Prod.mk.inj (Option.some.inj h)).2
  | cons arrival arrivals ih =>
      obtain ⟨sender, d⟩ := arrival
      obtain ⟨info', hsender⟩ := h sender
      rw [atAddr_cons, if_pos rfl] at hsender
      simp only [FragInfo.receiveAll, Option.bind_eq_bind, Option.bind_eq_some_iff,
        Option.some.injEq, Prod.mk.injEq] at hsender
      obtain ⟨⟨info, packet⟩, hreceive, ⟨info'', out⟩, hrun, rfl, houts⟩ := hsender
      have hrest : ∀ a, ∃ info', (((fragInfo.insert sender info).lookup a).getD {}).receiveAll
          (atAddr a arrivals) = some (info', if a = sender then out else outs a) := by
        intro a
        rw [Table.lookup_insert_eq]
        split_ifs with heq
        · rw [heq]
          exact ⟨info'', hrun⟩
        · obtain ⟨info', hother⟩ := h a
          rw [atAddr_cons, if_neg (Ne.symm heq)] at hother
          exact ⟨info', hother⟩
      obtain ⟨fragInfo', out', hall, hout'⟩ := ih hrest
      refine ⟨fragInfo', packet.toList.map (fun p => (sender, p)) ++ out', ?_, fun a => ?_⟩
      · simp only [onReadables, onReadable, hreceive, hall, Option.bind_eq_bind, Option.bind_some]
      · rw [atAddr_append, atAddr_map, hout' a]
        by_cases heq : a = sender
        · rw [if_pos heq, if_pos heq.symm, heq]
          exact houts
        · rw [if_neg heq, if_neg (Ne.symm heq), List.nil_append]

/-- **Framing and fragmentation.** The transport at address `a` sends the messages `sends a`, of
which fewer than `2 ^ 64` in fragments. Let any datagrams sent to `me` arrive, any number of
times and in any order. The receiver never reads past the end of a packet, and every message it
dispatches as one of `a` was sent by `a` to `me`; and if what arrives of `a` is all that `a` sent
to `me`, once and in order, it dispatches exactly these messages in order. -/
theorem dispatches_sent (sends : Addr → List (Addr × Message))
    (hids : ∀ a, numLarge (sends a) ≤ 2 ^ 64 - 1) (me : Addr) (arrivals : List (Addr × Bytes))
    (hsent : ∀ p ∈ arrivals, p.2 ∈ datagramsTo me (sends p.1)) :
    ∃ fragInfo out, onReadables (∅ : Table Addr FragInfo) arrivals = some (fragInfo, out) ∧
      ∀ a, (∀ p ∈ atAddr a out, ∃ m, (me, m) ∈ sends a ∧ p = m.content) ∧
        (atAddr a arrivals = datagramsTo me (sends a) →
          atAddr a out = (atAddr me (sends a)).map Message.content) := by
  -- what happens to each sender by itself
  have hrun : ∀ a, ∃ info' out, ({} : FragInfo).receiveAll (atAddr a arrivals) =
      some (info', out) ∧ ∀ p ∈ out, ∃ m, (me, m) ∈ sends a ∧ p = m.content := by
    intro a
    apply receiveAll_sent (Nat.lt_of_le_pred (by decide) (hids a)) (.inl rfl)
    intro d hd
    exact hsent (a, d) (mem_atAddr.1 hd)
  choose infos outs hruns houts using hrun
  have hapart : ∀ a, ∃ info', (((∅ : Table Addr FragInfo).lookup a).getD {}).receiveAll
      (atAddr a arrivals) = some (info', outs a) := fun a => ⟨infos a, hruns a⟩
  obtain ⟨fragInfo, out, hall, hout⟩ := onReadables_eq hapart
  refine ⟨fragInfo, out, hall, fun a => ⟨?_, fun horder => ?_⟩⟩
  · rw [hout a]
    exact houts a
  · have hids' : 0 + numLarge (sends a) < 2 ^ 64 := by
      rw [Nat.zero_add]
      exact Nat.lt_of_le_pred (by decide) (hids a)
    have hinfo : ({} : FragInfo).msgId = 0 := rfl
    have hrun := hruns a
    rw [horder, datagramsTo] at hrun
    obtain ⟨info', _, horderly⟩ := receiveAll_inOrder hids' hinfo
    rw [horderly] at hrun
    rw [hout a, ← (Prod.mk.inj (Option.some.inj hrun)).2]

end

/-- A message in one datagram. -/
def shortMessage : Message where
  type := [1]
  data := []
  named := List.cons_ne_nil _ _
  fits := by decide

/-- A message in two fragments. -/
def longMessage : Message where
  type := [1]
  data := List.replicate 20000 7
  named := List.cons_ne_nil _ _
  fits := by
    rw [List.length_replicate]
    decide

/-- A short message, a long one and a short one arrive in order. -/
theorem dispatches_sent_inOrder :
    let sends : ℕ → List (ℕ × Message) := fun a =>
      if a = 0 then [(1, shortMessage), (1, longMessage), (1, shortMessage)] else []
    longMessage.Large ∧
      ∃ fragInfo out, onReadables (∅ : Table ℕ FragInfo)
          ((datagramsTo 1 (sends 0)).map fun d => (0, d)) = some (fragInfo, out) ∧
        atAddr 0 out = [shortMessage.content, longMessage.content, shortMessage.content] := by
  intro sends
  have hdata : longMessage.data.length = 20000 := List.length_replicate
  have hlarge : longMessage.Large := by
    have hsize : maxUdpMessageSize = 15000 := rfl
    rw [Message.Large, length_serializeMessage, hdata]
    omega
  have hids : ∀ a, numLarge (sends a) ≤ 2 ^ 64 - 1 := by
    intro a
    refine List.countP_le_length.trans ?_
    show (if a = 0 then _ else _ : List (ℕ × Message)).length ≤ _
    split_ifs
    · decide
    · decide
  have hsent : ∀ p ∈ (datagramsTo 1 (sends 0)).map fun d => ((0 : ℕ), d),
      p.2 ∈ datagramsTo 1 (sends p.1) := by
    intro p hp
    obtain ⟨d, hd, rfl⟩ := List.mem_map.1 hp
    exact hd
  obtain ⟨fragInfo, out, hall, hout⟩ := dispatches_sent sends hids 1 _ hsent
  refine ⟨hlarge, fragInfo, out, hall, ?_⟩
  have hmine : atAddr 1 (sends 0) = [shortMessage, longMessage, shortMessage] := by
    rw [show sends 0 = [(1, shortMessage), (1, longMessage), (1, shortMessage)] from rfl,
      atAddr_cons, if_pos rfl, atAddr_cons, if_pos rfl, atAddr_cons, if_pos rfl]
    rfl
  rw [(hout 0).2 (by rw [atAddr_map, if_pos rfl]), hmine, List.map_cons, List.map_cons,
    List.map_singleton]

end D2PC.UdpTransport
