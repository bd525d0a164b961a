/-
From the symbols file to the UDP filter.

A symbol becomes eight bytes twice: `strncpy` writes at most seven of its bytes into
the message, up to its first zero byte, and `pack_symbol` takes up to eight of them,
zeros included, into the subscription.  The two agree exactly on symbols that are
zero from their first zero byte and from their eighth byte on (`FitsField`).  The
length limit of the file is nine, so an eight-character symbol is accepted and its
messages pass nobody's filter.
-/
import MarketData.Generator.RandomWalkGenerator
import MarketData.Proofs.RoundTrip

namespace MarketData

open Lib IDisseminator UdpFeedHandler RandomWalkGenerator

/-- Whether a message sent as `t`, over whatever the buffers held, passes the filter of
a handler that has subscribed to `s` only. -/
def passesFilter (s : List Byte) (topic : Bytes topicHeaderSize)
    (t : Turn (Bytes UdpDisseminator.bufferSize)) (buffer : Bytes receiveBufferSize) : Bool :=
  contains {packSymbol s} (recvfrom buffer (.datagram (UdpDisseminator.sendImpl t.env
    (writeTopic topic t.stamped) t.stamped (payload t.padding t.stamped)))).1

/-- A quote generated for a symbol, about to be sent. -/
def sampleTurn (symbol : List Byte) : Turn (Bytes UdpDisseminator.bufferSize) where
  msg := .quote (generateQuote symbol 0 0 50 50 0)
  now := 0
  padding := Bytes.zero 4
  env := Bytes.zero _

theorem sampleTurn_generated (symbol : List Byte) :
    GeneratedFor symbol (sampleTurn symbol).msg := GeneratedFor.quote 0 0 50 50 0

/-- The symbol is zero from its first zero byte, and from its eighth byte, on. -/
def FitsField (symbol : List Byte) : Prop :=
  ∀ b ∈ symbol.drop (min 7 (symbol.takeWhile (· != 0)).length), b = 0

/-- The symbols are equal up to zero bytes at their ends. -/
def SameButZeros (s t : List Byte) : Prop :=
  ∃ i j, s ++ List.replicate i 0 = t ++ List.replicate j 0

/-! ### The two ways into eight bytes -/

theorem packSymbol_eq (s : List Byte) : packSymbol s = (Bytes.ofList 8 s).toBitVec := by
  unfold packSymbol
  rw [Bytes.toBitVec_inj]
  ext1
  have hrest : 8 - (s.take 8).length = 8 - s.length := by
    rw [List.length_take]
    omega
  rw [Bytes.toList_ofList, Bytes.toList_memcpy_zero, hrest]

/-- A list of at most eight bytes is only padded. -/
theorem toList_ofList_of_le {s : List Byte} (h : s.length ≤ 8) :
    (Bytes.ofList 8 s).toList = s ++ List.replicate (8 - s.length) 0 := by
  rw [Bytes.toList_ofList, List.take_of_length_le h]

/-- What `strncpy` leaves in the field. -/
theorem toList_symbolField (s : List Byte) :
    (symbolField s).toList = s.take (min 7 (s.takeWhile (· != 0)).length) ++
      List.replicate (8 - min 7 (s.takeWhile (· != 0)).length) 0 := by
  obtain ⟨rest, hrest⟩ : s.takeWhile (· != 0) <+: s := List.takeWhile_prefix _
  unfold symbolField strncpy
  rw [Bytes.toList_memcpy_zero, Bytes.toList_ofList, List.append_assoc,
    List.replicate_append_replicate]
  generalize s.takeWhile (· != 0) = p at hrest
  have htake : p.take 7 = s.take (min 7 p.length) := by
    rw [← hrest, List.take_append_of_le_length (Nat.min_le_right _ _)]
    simp
  rw [htake]
  congr 2
  omega

theorem symbolField_eq_iff {s : List Byte} (h : s.length ≤ 8) :
    symbolField s = Bytes.ofList 8 s ↔ FitsField s := by
  have hk : min 7 (s.takeWhile (· != 0)).length ≤ s.length :=
    Nat.le_trans (Nat.min_le_right _ _) (List.takeWhile_prefix _).length_le
  rw [Bytes.ext_iff, toList_symbolField, toList_ofList_of_le h]
  unfold FitsField
  generalize min 7 (s.takeWhile (· != 0)).length = k at hk
  have hsplit : s ++ List.replicate (8 - s.length) 0 =
      s.take k ++ (s.drop k ++ List.replicate (8 - s.length) 0) := by
    rw [← List.append_assoc, List.take_append_drop]
  rw [hsplit, List.append_cancel_left_eq]
  constructor
  · intro heq b hb
    have hmem : b ∈ List.replicate (8 - k) (0 : Byte) := by
      rw [heq]
      exact List.mem_append_left _ hb
    exact List.eq_of_mem_replicate hmem
  · intro hzero
    have hdrop : s.drop k = List.replicate (s.length - k) 0 := by
      rw [List.eq_replicate_iff, List.length_drop]
      exact ⟨rfl, hzero⟩
    rw [hdrop, List.replicate_append_replicate]
    congr 1
    omega

theorem ofList_eq_iff {s t : List Byte} (hs : s.length ≤ 8) (ht : t.length ≤ 8) :
    Bytes.ofList 8 s = Bytes.ofList 8 t ↔ SameButZeros s t := by
  rw [Bytes.ext_iff, toList_ofList_of_le hs, toList_ofList_of_le ht]
  constructor
  · intro h
    exact ⟨_, _, h⟩
  · rintro ⟨i, j, h⟩
    have hpad : ∀ (x : List Byte) (n : Nat), x.length ≤ 8 →
        ((x ++ List.replicate n 0) ++ List.replicate 8 0).take 8 =
          x ++ List.replicate (8 - x.length) 0 := by
      intro x n hx
      rw [List.append_assoc, List.replicate_append_replicate, List.take_append,
        List.take_of_length_le hx, List.take_replicate, Nat.min_eq_left (by omega)]
    rw [← hpad s i hs, h, hpad t j ht]

/-! ### The filter -/

theorem length_of_mem_readSymbolsFile {file t : List Byte} (h : t ∈ readSymbolsFile file) :
    t.length ≤ 8 := by
  unfold readSymbolsFile at h
  obtain ⟨line, -, hline⟩ := List.mem_filterMap.mp h
  simp only at hline
  split at hline
  · rename_i hok
    simp only [Option.some.injEq] at hline
    simp only [Bool.and_eq_true, decide_eq_true_eq] at hok
    rw [← hline]
    omega
  · simp at hline

/-- Both copies of the loop read the same symbols. -/
theorem subscribedSymbols_eq (file : List Byte) :
    Main.subscribedSymbols file = readSymbolsFile file := rfl

theorem symbol_of_generatedFor {t : List Byte} {msg : MarketDataMsg} (h : GeneratedFor t msg) :
    msg.symbol = symbolField t := by
  cases h <;> rfl

/-- The id that reaches the filter is the message's symbol field. -/
theorem passesFilter_iff {s : List Byte} {topic : Bytes topicHeaderSize}
    {t : Turn (Bytes UdpDisseminator.bufferSize)} {buffer : Bytes receiveBufferSize} :
    passesFilter s topic t buffer = true ↔ t.msg.symbol = Bytes.ofList 8 s := by
  obtain ⟨c, -, htopic⟩ := writeTopic_toList topic t.stamped
  have hsymbol : t.stamped.symbol = t.msg.symbol :=
    MarketDataMsg.symbol_setDisseminateTimestamp t.now t.msg
  have hsent := UdpDisseminator.sendImpl_eq t.env (writeTopic topic t.stamped) t.stamped
    (payload t.padding t.stamped)
  have hlen : (UdpDisseminator.sendImpl t.env (writeTopic topic t.stamped) t.stamped
      (payload t.padding t.stamped)).length = topicHeaderSize + payloadSize t.stamped := by
    rw [hsent]
    simp
  have hreceived := received_of_fits hlen
  unfold passesFilter contains
  rw [decide_eq_true_eq, Finset.mem_singleton,
    incomingSymbol_recvfrom buffer (by rw [hreceived, hlen]; omega), hreceived, packSymbol_eq,
    datagramId, Bytes.toBitVec_inj, hsent, htopic]
  have hfield : Bytes.ofList 8 (List.drop 2 (typeByte t.stamped :: c :: t.stamped.symbol.toList ++
      (payload t.padding t.stamped).toList)) = t.stamped.symbol := by
    ext1
    rw [Bytes.ofList_of_le (by simp)]
    simp
  rw [hfield, hsymbol]

/--
**Symbols keep their identity exactly if they fit the field.**  For every symbols
file: a generated message passes the filter of a subscriber of one symbol if and only
if it was generated for that symbol, for all the symbols of the file and whatever the
buffers held, if and only if every symbol of the file is zero from its first zero byte
and from its eighth byte on, and no two of them differ in zeros at their ends only.
-/
theorem symbol_identity_iff (file : List Byte) :
    (∀ s ∈ Main.subscribedSymbols file, ∀ t ∈ readSymbolsFile file,
      ∀ turn : Turn (Bytes UdpDisseminator.bufferSize), GeneratedFor t turn.msg →
      ∀ topic buffer, passesFilter s topic turn buffer = true ↔ s = t) ↔
    (∀ t ∈ readSymbolsFile file, FitsField t) ∧
      ∀ s ∈ Main.subscribedSymbols file, ∀ t ∈ readSymbolsFile file, SameButZeros s t → s = t := by
  rw [subscribedSymbols_eq]
  constructor
  · intro h
    have hfits : ∀ t ∈ readSymbolsFile file, symbolField t = Bytes.ofList 8 t := by
      intro t ht
      have hpass := (h t ht t ht (sampleTurn t) (sampleTurn_generated t) (Bytes.zero _)
        (Bytes.zero _)).mpr rfl
      rw [passesFilter_iff, symbol_of_generatedFor (sampleTurn_generated t)] at hpass
      exact hpass
    refine ⟨?_, ?_⟩
    · intro t ht
      exact (symbolField_eq_iff (length_of_mem_readSymbolsFile ht)).mp (hfits t ht)
    · intro s hs t ht hsame
      refine (h s hs t ht (sampleTurn t) (sampleTurn_generated t) (Bytes.zero _)
        (Bytes.zero _)).mp ?_
      rw [passesFilter_iff, symbol_of_generatedFor (sampleTurn_generated t), hfits t ht]
      exact ((ofList_eq_iff (length_of_mem_readSymbolsFile hs)
        (length_of_mem_readSymbolsFile ht)).mpr hsame).symm
  · rintro ⟨hfits, hdistinct⟩ s hs t ht turn hgen topic buffer
    have hs8 := length_of_mem_readSymbolsFile hs
    have ht8 := length_of_mem_readSymbolsFile ht
    rw [passesFilter_iff, symbol_of_generatedFor hgen,
      (symbolField_eq_iff ht8).mpr (hfits t ht), ofList_eq_iff ht8 hs8]
    constructor
    · rintro ⟨i, j, hij⟩
      exact hdistinct s hs t ht ⟨j, i, hij.symm⟩
    · intro heq
      exact ⟨0, 0, by rw [heq]⟩

/-- The symbol of eight letters that the generator's own tests use. -/
def sprstock : List Byte := "SPRSTOCK".toList.map byteOf

/-- **Eight letters are accepted and lost.**  A file of one line; its symbol is generated
and subscribed to, and the message does not pass the filter. -/
theorem sprstock_lost :
    sprstock ∈ Main.subscribedSymbols ("SPRSTOCK\n".toList.map byteOf) ∧
      sprstock ∈ readSymbolsFile ("SPRSTOCK\n".toList.map byteOf) ∧
      GeneratedFor sprstock (sampleTurn sprstock).msg ∧
      passesFilter sprstock (Bytes.zero _) (sampleTurn sprstock) (Bytes.zero _) = false :=
  ⟨by decide +kernel, by decide +kernel, sampleTurn_generated sprstock, by decide +kernel⟩

end MarketData
