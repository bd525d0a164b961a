/-
What a packed symbol stands for.

`pack_symbol` copies at most eight bytes of a string over a zero, and the receive loop
copies eight bytes of the header into a number of the same type.  Both numbers are the
little-endian reading of eight bytes, and that reading is injective (`toBitVec_inj`), so
everything about ids is a question about eight bytes: those of the string, cut or padded
with zeros (`packSymbol_eq`), and those of the header (`incomingSymbol_eq`).

The set of ids is kept by insertions and erasures.  `mem_applyAll_map` carries it over to
the set of symbol fields that the same calls would keep.
-/
import MarketData.Proofs.TransportFilters

namespace MarketData

open Lib IDisseminator UdpFeedHandler

/-! ### Strings -/

theorem packSymbol_eq_iff (s t : List Byte) :
    packSymbol s = packSymbol t ↔ Bytes.ofList 8 s = Bytes.ofList 8 t := by
  rw [packSymbol_eq, packSymbol_eq, Bytes.toBitVec_inj]

/-- Without zeros in it, what stands before the padding is all up to the first zero. -/
theorem takeWhile_of_noZero {s : List Byte} (h : 0 ∉ s) (n : Nat) :
    (s ++ List.replicate n 0).takeWhile (· != 0) = s := by
  have hs : ∀ b ∈ s, (b != 0) = true := by
    intro b hb
    rw [bne_iff_ne]
    intro hzero
    rw [hzero] at hb
    exact h hb
  rw [List.takeWhile_append_of_pos hs]
  cases n with
  | zero => simp
  | succ n => simp [List.replicate_succ]

/-- A string that fits the field and has no zero byte can be read back from it. -/
theorem takeWhile_ofList {s : List Byte} (hlen : s.length ≤ 8) (h : 0 ∉ s) :
    (Bytes.ofList 8 s).toList.takeWhile (· != 0) = s := by
  rw [toList_ofList_of_le hlen, takeWhile_of_noZero h]

/-! ### Headers -/

/-- A datagram whose header has `x` as its symbol field, whatever its other bytes are. -/
def HoldsField (x : Bytes 8) (bytes : List Byte) : Prop :=
  ∃ type colon rest, bytes = type :: colon :: (x.toList ++ rest)

/-- The id read from a header is its symbol field, whatever the buffer held before. -/
theorem incomingSymbol_eq {x : Bytes 8} {bytes : List Byte} (h : HoldsField x bytes)
    (buffer : Bytes receiveBufferSize) :
    incomingSymbol (recvfrom buffer (.datagram bytes)).1 = x.toBitVec := by
  obtain ⟨type, colon, rest, rfl⟩ := h
  -- A datagram longer than the buffer is cut, but far behind its header.
  have hreceived : received (type :: colon :: (x.toList ++ rest)) =
      type :: colon :: (x.toList ++ rest.take (receiveBufferSize - topicHeaderSize)) := by
    show List.take (1022 + 2) _ = _
    rw [List.take_succ_cons, List.take_succ_cons, List.take_append,
      List.take_of_length_le (by simp), Bytes.length_eq]
    rfl
  rw [incomingSymbol_recvfrom buffer (by rw [hreceived]; simp [topicHeaderSize]),
    hreceived, datagramId, Bytes.toBitVec_inj]
  ext1
  rw [Bytes.ofList_of_le (by simp)]
  simp

/-! ### The set -/

/-- The set of symbol fields that the calls of a history would keep. -/
def subscribedFields (history : List Call) : Finset (Bytes 8) :=
  Update.applyAll (history.map fun c => ⟨c.isSubscribe, Bytes.ofList 8 c.symbol⟩)

theorem toBitVec_injective : Function.Injective (Bytes.toBitVec : Bytes 8 → BitVec (8 * 8)) := by
  intro a b h
  exact Bytes.toBitVec_inj.mp h

/-- The set of ids holds the ids of the fields. -/
theorem mem_udpSubscriptions_iff_field (x : Bytes 8) (history : List Call) :
    x.toBitVec ∈ udpSubscriptions history ↔ x ∈ subscribedFields history := by
  rw [udpSubscriptions_eq, subscribedFields, ← Update.mem_applyAll_map toBitVec_injective,
    List.map_map]
  simp only [packSymbol_eq]
  rfl

theorem contains_iff_field {x : Bytes 8} {bytes : List Byte} (h : HoldsField x bytes)
    (history : List Call) (buffer : Bytes receiveBufferSize) :
    contains (udpSubscriptions history) (recvfrom buffer (.datagram bytes)).1 = true ↔
      x ∈ subscribedFields history := by
  unfold contains
  rw [decide_eq_true_eq, incomingSymbol_eq h, mem_udpSubscriptions_iff_field]

/--
**Packed symbols are faithful.**  Two strings pack alike exactly if their first eight
bytes, padded with zeros, are equal; so strings of at most eight bytes without a zero
are told apart.  The id of a header is that of a string exactly if its field is the
string cut or padded to eight bytes, and after any sequence of calls the set of ids
answers for a header as the set of fields does.
-/
theorem packed_symbols_faithful :
    (∀ s t, packSymbol s = packSymbol t ↔ Bytes.ofList 8 s = Bytes.ofList 8 t) ∧
    (∀ s t : List Byte, s.length ≤ 8 → 0 ∉ s → t.length ≤ 8 → 0 ∉ t →
      packSymbol s = packSymbol t → s = t) ∧
    ∀ x bytes buffer, HoldsField x bytes →
      (∀ s, incomingSymbol (recvfrom buffer (.datagram bytes)).1 = packSymbol s ↔
        x = Bytes.ofList 8 s) ∧
      ∀ history, contains (udpSubscriptions history) (recvfrom buffer (.datagram bytes)).1 = true ↔
        x ∈ subscribedFields history := by
  refine ⟨packSymbol_eq_iff, ?_, ?_⟩
  · intro s t hs hs0 ht ht0 h
    rw [packSymbol_eq_iff] at h
    rw [← takeWhile_ofList hs hs0, h, takeWhile_ofList ht ht0]
  · intro x bytes buffer hx
    refine ⟨fun s => ?_, fun history => contains_iff_field hx history buffer⟩
    rw [incomingSymbol_eq hx, packSymbol_eq, Bytes.toBitVec_inj]

def goog : List Byte := "GOOG".toList.map byteOf

def msft : List Byte := "MSFT".toList.map byteOf

/-- The header of a quote for `MSFT`. -/
def msftHeader : List Byte := "Q:MSFT".toList.map byteOf ++ List.replicate 4 0

theorem holdsField_msftHeader : HoldsField (Bytes.ofList 8 msft) msftHeader :=
  ⟨byteOf 'Q', byteOf ':', [], by decide⟩

/-- Two subscriptions, one of them taken back: the other one's header passes. -/
theorem packed_symbols_faithful_msft :
    contains (udpSubscriptions [⟨true, goog⟩, ⟨true, msft⟩, ⟨false, goog⟩])
        (recvfrom (Bytes.zero _) (.datagram msftHeader)).1 = true ∧
      incomingSymbol (recvfrom (Bytes.zero _) (.datagram msftHeader)).1 ≠ packSymbol goog ∧
      packSymbol goog ≠ packSymbol msft := by
  obtain ⟨-, hinj, hfield⟩ := packed_symbols_faithful
  obtain ⟨hid, hset⟩ := hfield (Bytes.ofList 8 msft) msftHeader (Bytes.zero _)
    holdsField_msftHeader
  refine ⟨(hset _).mpr (by decide), ?_, ?_⟩
  · rw [ne_eq, hid]
    decide
  · intro heq
    have hsame : goog = msft :=
      hinj goog msft (by decide) (by decide) (by decide) (by decide) heq
    exact absurd hsame (by decide)

end MarketData
