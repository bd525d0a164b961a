/-
The symbols file.

`read_symbols_file` and the subscription loop of `main` cut the file with
`std::getline`, erase in three passes and test the length.  `acceptedSymbols` is what
that comes to, without the order of the passes and without the special case at the end
of the file: the file is cut at its line feeds, every piece loses its white space, and
the pieces that are then neither empty nor too long are kept.

A byte that is white space but no line feed is lost wherever it stands (`Respaced`),
so line ends of either kind and blanks inside a line do not matter.  What was read
holds no white space, and is read back from one symbol a line.
-/
import MarketData.Generator.RandomWalkGenerator

namespace MarketData

open Lib RandomWalkGenerator

/-- A piece of the file without its white space. -/
def squeeze (line : List Byte) : List Byte := line.filter fun b => !isspace b

def isAccepted (symbol : List Byte) : Bool := !symbol.isEmpty && decide (symbol.length < 9)

/-- The symbols of a file, as they are meant. -/
def acceptedSymbols (file : List Byte) : List (List Byte) :=
  ((file.splitOn (byteOf '\n')).map squeeze).filter isAccepted

/-- The second file is the first with spaces, tabs and carriage returns inserted. -/
inductive Respaced : List Byte → List Byte → Prop
  | nil : Respaced [] []
  | keep (b : Byte) {file file' : List Byte} :
      Respaced file file' → Respaced (b :: file) (b :: file')
  | insert {b : Byte} {file file' : List Byte} :
      b ∈ [byteOf ' ', byteOf '\t', byteOf '\r'] → Respaced file file' →
        Respaced file (b :: file')

/-- The file with every line feed turned into a carriage return and a line feed. -/
def toCrlf (file : List Byte) : List Byte :=
  file.flatMap fun b => if b = byteOf '\n' then [byteOf '\r', byteOf '\n'] else [b]

/-- One symbol a line. -/
def symbolLines (symbols : List (List Byte)) : List Byte :=
  symbols.flatMap fun s => s ++ [byteOf '\n']

/-! ### The pieces of a file -/

theorem splitOn_newline (file : List Byte) :
    (byteOf '\n' :: file).splitOn (byteOf '\n') = [] :: file.splitOn (byteOf '\n') := by
  unfold List.splitOn
  rw [List.splitOnP_cons_eq_if_modifyHead, if_pos (by simp)]

theorem splitOn_byte {b : Byte} (h : b ≠ byteOf '\n') (file : List Byte) :
    (b :: file).splitOn (byteOf '\n') =
      (file.splitOn (byteOf '\n')).modifyHead (List.cons b) := by
  unfold List.splitOn
  rw [List.splitOnP_cons_eq_if_modifyHead, if_neg (by simpa using h)]

theorem splitOn_cases (file : List Byte) :
    ∃ piece pieces, file.splitOn (byteOf '\n') = piece :: pieces :=
  List.exists_cons_of_ne_nil (List.splitOnP_ne_nil _ _)

/-! ### Both loops compute the accepted symbols -/

theorem stripLine_eq (line : List Byte) : stripLine line = squeeze line := by
  unfold stripLine squeeze
  rw [List.filter_filter, List.filter_filter]
  apply List.filter_congr
  intro b _
  by_cases hr : b = byteOf '\r'
  · rw [hr]
    decide
  by_cases hn : b = byteOf '\n'
  · rw [hn]
    decide
  have hrb : (b != byteOf '\r') = true := bne_iff_ne.mpr hr
  have hnb : (b != byteOf '\n') = true := bne_iff_ne.mpr hn
  rw [hrb, hnb, Bool.and_true, Bool.and_true]

/-- A line is kept if it is accepted once it has lost its white space. -/
def keptSymbol (line : List Byte) : Option (List Byte) :=
  if isAccepted (squeeze line) then some (squeeze line) else none

theorem filterMap_keptSymbol (lines : List (List Byte)) :
    lines.filterMap keptSymbol = (lines.map squeeze).filter isAccepted := by
  induction lines with
  | nil => rfl
  | cons line rest ih =>
      rw [List.map_cons]
      by_cases h : isAccepted (squeeze line) = true
      · rw [List.filter_cons_of_pos h, ← ih]
        exact List.filterMap_cons_some (if_pos h)
      · rw [List.filter_cons_of_neg h, ← ih]
        exact List.filterMap_cons_none (if_neg h)

/-- `getlines` differs from the pieces only in an empty last one, which is not kept. -/
theorem filterMap_getlines (rest line : List Byte) :
    (getlines line rest).filterMap keptSymbol =
      ((rest.splitOn (byteOf '\n')).modifyHead (line ++ ·)).filterMap keptSymbol := by
  induction rest generalizing line with
  | nil =>
      cases line with
      | nil => rfl
      | cons b line =>
          show List.filterMap keptSymbol [b :: line] = _
          rw [List.splitOn_nil]
          simp
  | cons b rest ih =>
      obtain ⟨piece, pieces, hsplit⟩ := splitOn_cases rest
      by_cases hb : b = byteOf '\n'
      · rw [getlines, if_pos hb, hb, splitOn_newline, List.filterMap_cons, ih, hsplit]
        simp [List.filterMap_cons]
      · rw [getlines, if_neg hb, splitOn_byte hb, ih, hsplit]
        simp

theorem readSymbolsFile_eq (file : List Byte) : readSymbolsFile file = acceptedSymbols file := by
  have hkept : readSymbolsFile file = (getlines [] file).filterMap keptSymbol := by
    unfold readSymbolsFile keptSymbol isAccepted
    simp only [stripLine_eq]
  obtain ⟨piece, pieces, hsplit⟩ := splitOn_cases file
  have hall : ((file.splitOn (byteOf '\n')).modifyHead ([] ++ ·)) = file.splitOn (byteOf '\n') := by
    rw [hsplit]
    rfl
  rw [hkept, filterMap_getlines, hall, filterMap_keptSymbol]
  rfl

/-! ### Blanks do not matter -/

theorem squeeze_blank {b : Byte} (h : isspace b = true) (line : List Byte) :
    squeeze (b :: line) = squeeze line := by
  unfold squeeze
  rw [List.filter_cons_of_neg (by simp [h])]

/-- A blank joins the piece it stands in, and is squeezed out of it. -/
theorem map_squeeze_blank {b : Byte} (hb : b ≠ byteOf '\n') (hs : isspace b = true)
    (file : List Byte) : ((b :: file).splitOn (byteOf '\n')).map squeeze =
      (file.splitOn (byteOf '\n')).map squeeze := by
  obtain ⟨piece, pieces, hsplit⟩ := splitOn_cases file
  rw [splitOn_byte hb, hsplit, List.modifyHead_cons, List.map_cons, List.map_cons,
    squeeze_blank hs]

theorem blank_cases {b : Byte} (h : b ∈ [byteOf ' ', byteOf '\t', byteOf '\r']) :
    b ≠ byteOf '\n' ∧ isspace b = true := by
  simp only [List.mem_cons, List.not_mem_nil, or_false] at h
  rcases h with h | h | h <;> rw [h] <;> decide

theorem Respaced.map_squeeze {file file' : List Byte} (h : Respaced file file') :
    (file'.splitOn (byteOf '\n')).map squeeze = (file.splitOn (byteOf '\n')).map squeeze := by
  induction h with
  | nil => rfl
  | @keep b file file' _ ih =>
      by_cases hb : b = byteOf '\n'
      · rw [hb, splitOn_newline, splitOn_newline, List.map_cons, List.map_cons, ih]
      · obtain ⟨piece, pieces, hsplit⟩ := splitOn_cases file
        obtain ⟨piece', pieces', hsplit'⟩ := splitOn_cases file'
        rw [hsplit, hsplit', List.map_cons, List.map_cons, List.cons.injEq] at ih
        rw [splitOn_byte hb, splitOn_byte hb, hsplit, hsplit', List.modifyHead_cons,
          List.modifyHead_cons, List.map_cons, List.map_cons, ih.2]
        congr 1
        unfold squeeze at ih ⊢
        rw [List.filter_cons, List.filter_cons, ih.1]
  | @insert b file file' hb _ ih =>
      obtain ⟨hn, hs⟩ := blank_cases hb
      rw [map_squeeze_blank hn hs, ih]

theorem respaced_toCrlf (file : List Byte) : Respaced file (toCrlf file) := by
  induction file with
  | nil => exact Respaced.nil
  | cons b file ih =>
      unfold toCrlf
      rw [List.flatMap_cons]
      by_cases hb : b = byteOf '\n'
      · rw [if_pos hb, hb]
        exact Respaced.insert (by simp) (Respaced.keep _ ih)
      · rw [if_neg hb]
        exact Respaced.keep b ih

/-! ### Writing the symbols back -/

theorem squeeze_of_mem {file s : List Byte} (h : s ∈ acceptedSymbols file) :
    squeeze s = s ∧ isAccepted s = true := by
  obtain ⟨hmem, haccepted⟩ := List.mem_filter.mp h
  obtain ⟨line, -, rfl⟩ := List.mem_map.mp hmem
  refine ⟨?_, haccepted⟩
  unfold squeeze
  rw [List.filter_filter]
  simp

/-- A symbol without white space is one piece of a line of its own. -/
theorem splitOn_symbol {s : List Byte} (h : squeeze s = s) (rest : List Byte) :
    (s ++ byteOf '\n' :: rest).splitOn (byteOf '\n') = s :: rest.splitOn (byteOf '\n') := by
  have hline : ∀ b ∈ s, (b == byteOf '\n') = false := by
    intro b hb
    rw [← h] at hb
    have hs : isspace b = false := by simpa using (List.mem_filter.mp hb).2
    rw [beq_eq_false_iff_ne]
    intro heq
    rw [heq] at hs
    exact absurd hs (by decide)
  unfold List.splitOn
  rw [List.splitOnP_append_cons _ _ (by simp), List.splitOnP_eq_singleton hline]
  rfl

theorem acceptedSymbols_symbolLines {symbols : List (List Byte)}
    (h : ∀ s ∈ symbols, squeeze s = s ∧ isAccepted s = true) :
    acceptedSymbols (symbolLines symbols) = symbols := by
  induction symbols with
  | nil => decide
  | cons s rest ih =>
      obtain ⟨hsqueeze, haccepted⟩ := h s (by simp)
      have hrest := ih fun t ht => h t (by simp [ht])
      have hlines : symbolLines (s :: rest) = s ++ byteOf '\n' :: symbolLines rest := by
        unfold symbolLines
        rw [List.flatMap_cons, List.append_assoc]
        rfl
      unfold acceptedSymbols at hrest ⊢
      rw [hlines, splitOn_symbol hsqueeze, List.map_cons, hsqueeze,
        List.filter_cons_of_pos haccepted, hrest]

/--
**The symbols parser meets its specification.**  For every file: both loops read the
pieces between line feeds, without their white space, that are then neither empty nor
longer than eight bytes, in file order; spaces, tabs and carriage returns inserted
anywhere change nothing, nor does any choice of line ends; and what was read, written
back one symbol a line, is read again.
-/
theorem symbols_parsed (file : List Byte) :
    Main.subscribedSymbols file = readSymbolsFile file ∧
    readSymbolsFile file = acceptedSymbols file ∧
    (∀ file', Respaced file file' → readSymbolsFile file' = readSymbolsFile file) ∧
    readSymbolsFile (toCrlf file) = readSymbolsFile file ∧
    readSymbolsFile (symbolLines (readSymbolsFile file)) = readSymbolsFile file := by
  have hrespaced : ∀ file', Respaced file file' → readSymbolsFile file' = readSymbolsFile file := by
    intro file' h
    rw [readSymbolsFile_eq, readSymbolsFile_eq, acceptedSymbols, acceptedSymbols, h.map_squeeze]
  refine ⟨rfl, readSymbolsFile_eq file, hrespaced, hrespaced _ (respaced_toCrlf file), ?_⟩
  rw [readSymbolsFile_eq, readSymbolsFile_eq]
  exact acceptedSymbols_symbolLines fun s hs => squeeze_of_mem hs

/-- A file with a blank inside its first line and a line end of either kind. -/
def mixedFile : List Byte := "A B\r\n\n \tC".toList.map byteOf

/-- The theorem at a file whose blanks are all inserted ones. -/
theorem symbols_parsed_mixedFile :
    Respaced ("AB\n\nC".toList.map byteOf) mixedFile ∧
      readSymbolsFile mixedFile = readSymbolsFile ("AB\n\nC".toList.map byteOf) := by
  have h : Respaced ("AB\n\nC".toList.map byteOf) mixedFile :=
    .keep _ (.insert (by decide) (.keep _ (.insert (by decide) (.keep _ (.keep _
      (.insert (by decide) (.insert (by decide) (.keep _ .nil))))))))
  exact ⟨h, (symbols_parsed _).2.2.1 _ h⟩

end MarketData
