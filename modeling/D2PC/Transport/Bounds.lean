import D2PC.Transport.Framing

/-!
# Where a datagram is read

`DecodePacket` and `UDPTransport::OnReadable` take two lengths from the wire and add them to
pointers. The assertions that compare them with the length of the buffer are not compiled in, so
nothing stops a read behind the end. Here each handler lists the reads it makes, in the wrapping
arithmetic of `size_t` and with any memory behind the buffer.

* `Memory`, `Read` : a buffer with what lies behind it, and a read of it;
* `decodeReads`, `onReadableReads` : the reads of the two functions;
* `Decodable`, `Readable` : the lengths in a datagram stay within it;
* `onReadable_inside_iff` : every read is inside its buffer exactly for readable datagrams;
* `receive_isSome_iff` : these are the datagrams for which `FragInfo.receive` has a result.
-/

namespace D2PC.UdpTransport

open Bytes

/-! ### Reads -/

/-- `2 ^ 64`, the number of values of a `size_t`. -/
def sizeTRange : ℕ := 2 ^ 64

/-- A buffer, and what lies behind it in memory. -/
structure Memory where
  buf : Bytes
  behind : ℕ → UInt8

/-- A read of `len` bytes at an offset to the start of a buffer of `size` bytes. -/
structure Read where
  pos : ℕ
  len : ℕ
  size : ℕ
  deriving DecidableEq

/-- Every position that is read is inside the buffer. Pointers wrap around. -/
def Read.Inside (r : Read) : Prop := ∀ i < r.len, (r.pos + i) % sizeTRange < r.size

def Memory.byte (m : Memory) (pos : ℕ) : UInt8 :=
  m.buf.getD (pos % sizeTRange) (m.behind (pos % sizeTRange))

/-- The `size_t` at an offset. -/
def Memory.wordAt (m : Memory) (pos : ℕ) : ℕ :=
  value ((List.range sizeofSizeT).map fun i => m.byte (pos + i))

/-- The reads of `DecodePacket`. A string that cannot be built, because of its length or for
lack of memory, is an exception; nothing is read then. -/
def decodeReads (canBuild : ℕ → Bool) (m : Memory) : List Read :=
  let sz := m.buf.length
  let typeLen := m.wordAt 0
  let ptr := (sizeofSizeT + typeLen) % sizeTRange
  let msgLen := m.wordAt ptr
  ⟨0, sizeofSizeT, sz⟩ ::
    if canBuild typeLen = false then []
    else ⟨sizeofSizeT, typeLen, sz⟩ :: ⟨ptr, sizeofSizeT, sz⟩ ::
      if canBuild msgLen = false then [] else [⟨(ptr + sizeofSizeT) % sizeTRange, msgLen, sz⟩]

/-- The buffer a fragment goes to. -/
def FragInfo.opened (info : FragInfo) (msgId : ℕ) : FragInfo :=
  let info := if info.msgId = 0 then { msgId := msgId, data := [] } else info
  if info.msgId ≠ msgId then { msgId := msgId, data := [] } else info

/-- The reads of `OnReadable` for a fragment, after the first field. What is behind the
reassembled buffer is `behind`. -/
def fragmentReads (canBuild : ℕ → Bool) (behind : ℕ → UInt8) (info : FragInfo) (m : Memory) :
    List Read :=
  let sz := m.buf.length
  let msgId := m.wordAt sizeofSizeT
  let fragStart := m.wordAt (2 * sizeofSizeT)
  let msgLen := m.wordAt (3 * sizeofSizeT)
  let info := info.opened msgId
  [⟨sizeofSizeT, sizeofSizeT, sz⟩, ⟨2 * sizeofSizeT, sizeofSizeT, sz⟩,
    ⟨3 * sizeofSizeT, sizeofSizeT, sz⟩] ++
    if fragStart ≠ info.data.length then []
    else
      -- `buf+sz-ptr` becomes a `size_t`
      let len := (sz + sizeTRange - 4 * sizeofSizeT) % sizeTRange
      if canBuild len = false then []
      else
        let data := info.data ++ (List.range len).map fun i => m.byte (4 * sizeofSizeT + i)
        ⟨4 * sizeofSizeT, len, sz⟩ ::
          if data.length = msgLen then decodeReads canBuild ⟨data, behind⟩ else []

/-- The reads of `OnReadable` for a datagram. -/
def onReadableReads (canBuild : ℕ → Bool) (behind : ℕ → UInt8) (info : FragInfo) (m : Memory) :
    List Read :=
  ⟨0, sizeofSizeT, m.buf.length⟩ ::
    if m.wordAt 0 ≠ 0 then decodeReads canBuild m else fragmentReads canBuild behind info m

/-! ### Lengths -/

/-- The number in the buffer at an offset. -/
def field (buf : Bytes) (pos : ℕ) : ℕ := value ((buf.drop pos).take sizeofSizeT)

/-- The lengths in a packet stay within it, as far as its strings can be built. -/
def Decodable (canBuild : ℕ → Bool) (buf : Bytes) : Prop :=
  sizeofSizeT ≤ buf.length ∧ (canBuild (field buf 0) →
    field buf 0 + 2 * sizeofSizeT ≤ buf.length ∧
    (canBuild (field buf (sizeofSizeT + field buf 0)) →
      field buf 0 + field buf (sizeofSizeT + field buf 0) + 2 * sizeofSizeT ≤ buf.length))

/-- The fragment completes a message: what the reassembled buffer holds then. -/
def FragInfo.completed (info : FragInfo) (buf : Bytes) : Option Bytes :=
  let info := info.opened (field buf sizeofSizeT)
  let data := info.data ++ buf.drop (4 * sizeofSizeT)
  if field buf (2 * sizeofSizeT) = info.data.length ∧ data.length = field buf (3 * sizeofSizeT) then
    some data
  else none

/-- A datagram is long enough for its first field; if that is not zero, the packet in it is
decodable; if it is zero, the header of a fragment is complete and the packet it completes, if
any, is decodable. -/
def Readable (canBuild : ℕ → Bool) (info : FragInfo) (buf : Bytes) : Prop :=
  sizeofSizeT ≤ buf.length ∧
  (field buf 0 ≠ 0 → Decodable canBuild buf) ∧
  (field buf 0 = 0 → 4 * sizeofSizeT ≤ buf.length ∧
    (canBuild (buf.length - 4 * sizeofSizeT) →
      ∀ data ∈ info.completed buf, Decodable canBuild data))

/-! ### What is inside -/

variable {canBuild : ℕ → Bool} {behind : ℕ → UInt8} {info : FragInfo} {m : Memory}

theorem Read.inside_iff {pos len size : ℕ} (hpos : pos < sizeTRange) (hsize : size < sizeTRange) :
    (⟨pos, len, size⟩ : Read).Inside ↔ len = 0 ∨ pos + len ≤ size := by
  constructor
  · intro h
    by_contra hnot
    rw [not_or, not_le] at hnot
    obtain ⟨hlen, hout⟩ := hnot
    have hfirst : (pos + 0) % sizeTRange < size := h 0 (Nat.pos_of_ne_zero hlen)
    rw [Nat.add_zero, Nat.mod_eq_of_lt hpos] at hfirst
    -- the first position behind the end is read
    have hend : (pos + (size - pos)) % sizeTRange < size := h (size - pos) (by
      show _ < len
      omega)
    rw [Nat.add_sub_cancel' (le_of_lt hfirst), Nat.mod_eq_of_lt hsize] at hend
    exact lt_irrefl _ hend
  · rintro (hzero | hle) i hi
    · have hi' : i < len := hi
      omega
    · have hi' : i < len := hi
      exact lt_of_le_of_lt (Nat.mod_le _ _) (by show pos + i < size; omega)

theorem value_lt (bs : Bytes) : value bs < 256 ^ bs.length := by
  induction bs with
  | nil => exact Nat.one_pos
  | cons b bs ih =>
      rw [value, List.length_cons, pow_succ]
      have hb := b.toNat_lt
      omega

theorem Memory.wordAt_lt (m : Memory) (pos : ℕ) : m.wordAt pos < sizeTRange := by
  refine lt_of_lt_of_le (value_lt _) ?_
  rw [List.length_map, List.length_range]
  decide

/-- Bytes inside the buffer. -/
theorem Memory.bytes_eq {pos n : ℕ} (hsize : m.buf.length < sizeTRange)
    (hle : pos + n ≤ m.buf.length) :
    ((List.range n).map fun i => m.byte (pos + i)) = (m.buf.drop pos).take n := by
  refine List.ext_getElem ?_ fun i hi hi' => ?_
  · rw [List.length_map, List.length_range, List.length_take, List.length_drop]
    omega
  · rw [List.length_map, List.length_range] at hi
    rw [List.getElem_map, List.getElem_range, List.getElem_take, List.getElem_drop, Memory.byte,
      Nat.mod_eq_of_lt (by omega)]
    exact (List.getElem_eq_getD _).symm

/-- A word inside the buffer. -/
theorem Memory.wordAt_eq {pos : ℕ} (hsize : m.buf.length < sizeTRange)
    (hle : pos + sizeofSizeT ≤ m.buf.length) : m.wordAt pos = field m.buf pos := by
  rw [wordAt, field, bytes_eq hsize hle]

/-- **`DecodePacket`.** -/
theorem decodeReads_inside_iff (hsize : m.buf.length < sizeTRange) :
    (∀ r ∈ decodeReads canBuild m, r.Inside) ↔ Decodable canBuild m.buf := by
  have hfirst : (⟨0, sizeofSizeT, m.buf.length⟩ : Read).Inside ↔ sizeofSizeT ≤ m.buf.length := by
    rw [Read.inside_iff (by decide) hsize]
    simp only [sizeofSizeT]
    omega
  unfold decodeReads Decodable
  rw [List.forall_mem_cons, hfirst]
  refine and_congr_right fun h₀ => ?_
  have htype : m.wordAt 0 = field m.buf 0 := Memory.wordAt_eq hsize (by omega)
  have hlt := m.wordAt_lt 0
  rw [htype] at hlt ⊢
  cases hbuild : canBuild (field m.buf 0) with
  | false => simp
  | true =>
      have hstring : (⟨sizeofSizeT, field m.buf 0, m.buf.length⟩ : Read).Inside ↔
          sizeofSizeT + field m.buf 0 ≤ m.buf.length := by
        rw [Read.inside_iff (by decide) hsize]
        omega
      rw [if_neg (by decide), List.forall_mem_cons, List.forall_mem_cons, hstring]
      simp only [forall_const]
      by_cases hle : sizeofSizeT + field m.buf 0 ≤ m.buf.length
      · have hptr : (sizeofSizeT + field m.buf 0) % sizeTRange = sizeofSizeT + field m.buf 0 :=
          Nat.mod_eq_of_lt (by omega)
        have hword : (⟨sizeofSizeT + field m.buf 0, sizeofSizeT, m.buf.length⟩ : Read).Inside ↔
            field m.buf 0 + 2 * sizeofSizeT ≤ m.buf.length := by
          rw [Read.inside_iff (lt_of_le_of_lt hle hsize) hsize]
          simp only [sizeofSizeT]
          omega
        rw [hptr, hword, and_iff_right hle]
        refine and_congr_right fun h₁ => ?_
        have hmsg : m.wordAt (sizeofSizeT + field m.buf 0) =
            field m.buf (sizeofSizeT + field m.buf 0) := Memory.wordAt_eq hsize (by omega)
        rw [hmsg]
        cases hbuild' : canBuild (field m.buf (sizeofSizeT + field m.buf 0)) with
        | false => simp
        | true =>
            have hptr' : (sizeofSizeT + field m.buf 0 + sizeofSizeT) % sizeTRange =
                sizeofSizeT + field m.buf 0 + sizeofSizeT := Nat.mod_eq_of_lt (by omega)
            rw [if_neg (by decide), List.forall_mem_singleton, hptr',
              Read.inside_iff (by omega) hsize]
            simp only [forall_const]
            omega
      · refine iff_of_false (fun h => hle h.1) fun h => hle ?_
        have h₁ := h.1
        omega

theorem FragInfo.length_opened_le (info : FragInfo) (msgId : ℕ) :
    (info.opened msgId).data.length ≤ info.data.length := by
  unfold opened
  dsimp only
  split
  · split
    · exact Nat.zero_le _
    · exact Nat.zero_le _
  · split
    · exact Nat.zero_le _
    · exact le_rfl

/-- **A fragment.** -/
theorem fragmentReads_inside_iff (hsz : m.buf.length ≤ bufSize) (hdata : info.data.length < 2 ^ 63) :
    (∀ r ∈ fragmentReads canBuild behind info m, r.Inside) ↔
      4 * sizeofSizeT ≤ m.buf.length ∧ (canBuild (m.buf.length - 4 * sizeofSizeT) →
        ∀ data ∈ info.completed m.buf, Decodable canBuild data) := by
  have hsize : m.buf.length < sizeTRange := lt_of_le_of_lt hsz (by decide)
  have hbuf : bufSize + 2 ^ 63 < sizeTRange := by decide
  have hword : ∀ pos < sizeTRange, (⟨pos, sizeofSizeT, m.buf.length⟩ : Read).Inside ↔
      pos + sizeofSizeT ≤ m.buf.length := by
    intro pos hpos
    rw [Read.inside_iff hpos hsize]
    simp only [sizeofSizeT]
    omega
  unfold fragmentReads
  rw [List.forall_mem_append]
  simp only [List.forall_mem_cons, List.not_mem_nil, false_implies, implies_true, and_true,
    hword sizeofSizeT (by decide), hword (2 * sizeofSizeT) (by decide),
    hword (3 * sizeofSizeT) (by decide)]
  by_cases hheader : 4 * sizeofSizeT ≤ m.buf.length
  · have hid : m.wordAt sizeofSizeT = field m.buf sizeofSizeT := Memory.wordAt_eq hsize (by omega)
    have hstart : m.wordAt (2 * sizeofSizeT) = field m.buf (2 * sizeofSizeT) :=
      Memory.wordAt_eq hsize (by omega)
    have hlen : m.wordAt (3 * sizeofSizeT) = field m.buf (3 * sizeofSizeT) :=
      Memory.wordAt_eq hsize (by omega)
    have hrest : (m.buf.length + sizeTRange - 4 * sizeofSizeT) % sizeTRange =
        m.buf.length - 4 * sizeofSizeT := by
      rw [Nat.sub_add_comm hheader, Nat.add_mod_right, Nat.mod_eq_of_lt (by omega)]
    have hpayload : ((List.range (m.buf.length - 4 * sizeofSizeT)).map fun i =>
        m.byte (4 * sizeofSizeT + i)) = m.buf.drop (4 * sizeofSizeT) := by
      rw [Memory.bytes_eq hsize (by omega), List.take_of_length_le (by rw [List.length_drop])]
    rw [hid, hstart, hlen, hrest, hpayload]
    unfold FragInfo.completed
    dsimp only
    have hopened := info.length_opened_le (field m.buf sizeofSizeT)
    generalize info.opened (field m.buf sizeofSizeT) = info' at hopened ⊢
    rw [and_iff_right ⟨by omega, by omega, by omega⟩, and_iff_right hheader]
    by_cases hnext : field m.buf (2 * sizeofSizeT) = info'.data.length
    · rw [if_neg (not_not.2 hnext)]
      cases hbuild : canBuild (m.buf.length - 4 * sizeofSizeT) with
      | false => simp
      | true =>
          have hinside : (⟨4 * sizeofSizeT, m.buf.length - 4 * sizeofSizeT, m.buf.length⟩ :
              Read).Inside := (Read.inside_iff (by decide) hsize).2 (.inr (by omega))
          rw [if_neg (by decide), List.forall_mem_cons, and_iff_right hinside]
          simp only [forall_const, hnext, true_and]
          by_cases hfull : (info'.data ++ m.buf.drop (4 * sizeofSizeT)).length =
              field m.buf (3 * sizeofSizeT)
          · rw [if_pos hfull, if_pos hfull, decodeReads_inside_iff]
            · simp only [Option.mem_def, Option.some.injEq, forall_eq']
            · show (info'.data ++ m.buf.drop _).length < sizeTRange
              rw [List.length_append, List.length_drop]
              omega
          · rw [if_neg hfull, if_neg hfull]
            simp
    · rw [if_pos hnext, if_neg (fun h => hnext h.1)]
      simp
  · refine iff_of_false (fun h => hheader ?_) fun h => hheader h.1
    have hlast := h.1.2.2
    omega

/-- **`OnReadable`** reads inside its buffers exactly if the datagram is readable. -/
theorem onReadable_inside_iff (hsz : m.buf.length ≤ bufSize) (hdata : info.data.length < 2 ^ 63) :
    (∀ r ∈ onReadableReads canBuild behind info m, r.Inside) ↔ Readable canBuild info m.buf := by
  have hsize : m.buf.length < sizeTRange := lt_of_le_of_lt hsz (by decide)
  have hfirst : (⟨0, sizeofSizeT, m.buf.length⟩ : Read).Inside ↔ sizeofSizeT ≤ m.buf.length := by
    rw [Read.inside_iff (by decide) hsize]
    simp only [sizeofSizeT]
    omega
  unfold onReadableReads Readable
  rw [List.forall_mem_cons, hfirst]
  refine and_congr_right fun h₀ => ?_
  have htype : m.wordAt 0 = field m.buf 0 := Memory.wordAt_eq hsize (by omega)
  rw [htype]
  by_cases hzero : field m.buf 0 = 0
  · rw [if_neg (not_not.2 hzero), fragmentReads_inside_iff hsz hdata]
    simp only [hzero, ne_eq, not_true_eq_false, false_implies, true_and, forall_const]
  · rw [if_pos hzero, decodeReads_inside_iff hsize]
    simp only [hzero, ne_eq, not_false_eq_true, forall_const, false_implies, and_true]

/-! ### Reads behind the end have no result -/

theorem readBytes_drop {buf : Bytes} {pos : ℕ} (hpos : pos ≤ buf.length) (n : ℕ) :
    readBytes n (buf.drop pos) =
      if pos + n ≤ buf.length then some ((buf.drop pos).take n, buf.drop (pos + n)) else none := by
  unfold readBytes
  rw [List.length_drop, List.drop_drop]
  by_cases hle : pos + n ≤ buf.length
  · rw [if_pos hle, if_pos (by omega)]
  · rw [if_neg hle, if_neg (by omega)]

theorem readWord_drop {buf : Bytes} {pos : ℕ} (hpos : pos ≤ buf.length) :
    readWord sizeofSizeT (buf.drop pos) =
      if pos + sizeofSizeT ≤ buf.length then
        some (field buf pos, buf.drop (pos + sizeofSizeT)) else none := by
  unfold readWord
  rw [readBytes_drop hpos]
  split <;> rfl

/-- `DecodePacket` has a result if the strings stay within the packet. -/
theorem decodePacket_isSome_iff (buf : Bytes) :
    (decodePacket buf).isSome ↔ Decodable (fun _ => true) buf := by
  unfold Decodable
  simp only [forall_const]
  have hfirst : readWord sizeofSizeT buf = _ := readWord_drop (Nat.zero_le buf.length)
  rw [decodePacket, hfirst, Nat.zero_add]
  by_cases h₀ : sizeofSizeT ≤ buf.length
  · rw [if_pos h₀, and_iff_right h₀]
    simp only [Option.bind_eq_bind, Option.bind_some, readBytes_drop h₀]
    by_cases h₁ : sizeofSizeT + field buf 0 ≤ buf.length
    · rw [if_pos h₁]
      simp only [Option.bind_some, readWord_drop h₁]
      by_cases h₂ : sizeofSizeT + field buf 0 + sizeofSizeT ≤ buf.length
      · rw [if_pos h₂]
        simp only [Option.bind_some, readBytes_drop h₂]
        by_cases h₃ : sizeofSizeT + field buf 0 + sizeofSizeT +
            field buf (sizeofSizeT + field buf 0) ≤ buf.length
        · rw [if_pos h₃]
          exact iff_of_true rfl ⟨by omega, by omega⟩
        · rw [if_neg h₃]
          exact iff_of_false Bool.false_ne_true fun h => h₃ (by omega)
      · rw [if_neg h₂]
        exact iff_of_false Bool.false_ne_true fun h => h₂ (by omega)
    · rw [if_neg h₁]
      exact iff_of_false Bool.false_ne_true fun h => h₁ (by omega)
  · rw [if_neg h₀]
    exact iff_of_false Bool.false_ne_true fun h => h₀ h.1

theorem FragInfo.add_isSome_iff (info : FragInfo) (msgId fragStart msgLen : ℕ) (part : Bytes) :
    (info.add msgId fragStart msgLen part).isSome ↔
      (fragStart = (info.opened msgId).data.length →
        ((info.opened msgId).data ++ part).length = msgLen →
        Decodable (fun _ => true) ((info.opened msgId).data ++ part)) := by
  have hadd : info.add msgId fragStart msgLen part =
      if fragStart ≠ (info.opened msgId).data.length then some (info.opened msgId, none)
      else if ((info.opened msgId).data ++ part).length = msgLen then do
        let packet ← decodePacket ((info.opened msgId).data ++ part)
        some ({ msgId := 0, data := [] }, some packet)
      else some ({ info.opened msgId with data := (info.opened msgId).data ++ part }, none) := rfl
  rw [hadd]
  by_cases hnext : fragStart = (info.opened msgId).data.length
  · rw [if_neg (not_not.2 hnext)]
    by_cases hfull : ((info.opened msgId).data ++ part).length = msgLen
    · rw [if_pos hfull, ← decodePacket_isSome_iff]
      simp only [hnext, hfull, forall_const]
      cases decodePacket ((info.opened msgId).data ++ part) with
      | none => exact Iff.rfl
      | some packet => exact Iff.rfl
    · rw [if_neg hfull]
      exact iff_of_true rfl fun _ h => absurd h hfull
  · rw [if_pos hnext]
    exact iff_of_true rfl fun h => absurd h hnext

/-- **Readable datagrams** are those for which `FragInfo.receive` has a result. -/
theorem receive_isSome_iff (info : FragInfo) {buf : Bytes} (hbuf : buf.length ≤ bufSize) :
    (info.receive buf).isSome ↔ Readable (fun _ => true) info buf := by
  unfold Readable
  simp only [forall_const]
  have hfirst : readWord sizeofSizeT buf = _ := readWord_drop (Nat.zero_le buf.length)
  rw [FragInfo.receive, List.take_of_length_le hbuf, hfirst, Nat.zero_add]
  by_cases h₀ : sizeofSizeT ≤ buf.length
  · rw [if_pos h₀, and_iff_right h₀]
    simp only [Option.bind_eq_bind, Option.bind_some]
    by_cases hzero : field buf 0 = 0
    · rw [if_neg (not_not.2 hzero)]
      simp only [hzero, ne_eq, not_true_eq_false, false_implies, true_and, forall_const,
        readWord_drop h₀]
      have h16 : sizeofSizeT + sizeofSizeT = 2 * sizeofSizeT := by omega
      have h24 : 2 * sizeofSizeT + sizeofSizeT = 3 * sizeofSizeT := by omega
      have h32 : 3 * sizeofSizeT + sizeofSizeT = 4 * sizeofSizeT := by omega
      rw [h16]
      by_cases h₁ : 2 * sizeofSizeT ≤ buf.length
      · rw [if_pos h₁]
        simp only [Option.bind_some, readWord_drop h₁, h24]
        by_cases h₂ : 3 * sizeofSizeT ≤ buf.length
        · rw [if_pos h₂]
          simp only [Option.bind_some, readWord_drop h₂, h32]
          by_cases h₃ : 4 * sizeofSizeT ≤ buf.length
          · rw [if_pos h₃, and_iff_right h₃]
            simp only [Option.bind_some, FragInfo.add_isSome_iff, FragInfo.completed]
            constructor
            · intro h data hdata
              split at hdata
              · rename_i hcond
                obtain rfl := Option.some.inj hdata
                exact h hcond.1 hcond.2
              · cases hdata
            · intro h hnext hfull
              exact h _ (if_pos ⟨hnext, hfull⟩)
          · rw [if_neg h₃]
            exact iff_of_false Bool.false_ne_true fun h => h₃ h.1
        · rw [if_neg h₂]
          exact iff_of_false Bool.false_ne_true fun h => h₂ (by omega)
      · rw [if_neg h₁]
        exact iff_of_false Bool.false_ne_true fun h => h₁ (by omega)
    · rw [if_pos hzero, ← decodePacket_isSome_iff]
      simp only [hzero, ne_eq, not_false_eq_true, forall_const, false_implies, and_true]
      cases decodePacket buf with
      | none => exact Iff.rfl
      | some packet => exact Iff.rfl
  · rw [if_neg h₀]
    exact iff_of_false Bool.false_ne_true fun h => h₀ h.1

/-! ### Datagrams -/

/-- A datagram of four bytes. -/
def truncated : Memory := ⟨[1, 0, 0, 0], fun _ => 0⟩

/-- **The slip.** The first field of a datagram of four bytes is read past its end; so is the
type of a packet that announces one of two bytes and holds one. -/
theorem onReadable_outside :
    ¬ (∀ r ∈ onReadableReads (fun _ => true) (fun _ => 0) {} truncated, r.Inside) ∧
    ¬ (∀ r ∈ onReadableReads (fun _ => true) (fun _ => 0) {}
        ⟨word sizeofSizeT 2 ++ [65], fun _ => 0⟩, r.Inside) := by
  constructor
  · intro h
    have hfirst := h ⟨0, 8, 4⟩ (by decide) 4 (by decide)
    exact absurd hfirst (by decide)
  · intro h
    have htype := h ⟨8, 2, 9⟩ (by decide) 1 (by decide)
    exact absurd htype (by decide)

theorem onReadable_inside_iff_truncated :
    (∀ r ∈ onReadableReads (fun _ => true) (fun _ => 0) {} truncated, r.Inside) ↔
      Readable (fun _ => true) {} truncated.buf :=
  onReadable_inside_iff (by decide) (by decide)

end D2PC.UdpTransport
