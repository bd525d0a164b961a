/-
Tables of numbers as text.

A table is a header line and a line for each row; a line ends with a newline, the
fields of a row are separated by commas, and a field is a number in decimal.  `table`
writes one and `table?` reads it, rejecting what is not one.

Reading gives back what was written (`table?_table`), since neither separator occurs in
a decimal number.
-/
import Mathlib.Data.List.Basic

namespace Lib

namespace Csv

abbrev Text := List Char

/-! ### Lines and fields -/

/-- Lines, each with its newline. -/
def ofLines (ls : List Text) : Text := ls.flatMap fun l => l ++ ['\n']

/-- Fields with commas between them. -/
def ofFields (fs : List Text) : Text := List.intercalate [','] fs

/-- What stands before each newline. -/
def lines (t : Text) : List Text := (t.splitOn '\n').dropLast

def fields (l : Text) : List Text := l.splitOn ','

theorem splitOn_ofLines {ls : List Text} (h : ∀ l ∈ ls, '\n' ∉ l) :
    (ofLines ls).splitOn '\n' = ls ++ [[]] := by
  induction ls with
  | nil => rfl
  | cons l ls ih =>
      have hl : '\n' ∉ l := h l (by simp)
      have hls := ih fun l' hl' => h l' (by simp [hl'])
      have hsplit : ofLines (l :: ls) = l ++ '\n' :: ofLines ls := by
        simp [ofLines]
      rw [hsplit, List.splitOn_eq_splitOnP, List.splitOnP_append_cons_of_forall_mem _ _ (by simp),
        ← List.splitOn_eq_splitOnP, hls, List.cons_append]
      intro c hc
      have hne : c ≠ '\n' := fun heq => hl (heq ▸ hc)
      simpa using hne

/-- Lines without newlines can be told apart. -/
theorem lines_ofLines {ls : List Text} (h : ∀ l ∈ ls, '\n' ∉ l) : lines (ofLines ls) = ls := by
  unfold lines
  rw [splitOn_ofLines h, List.dropLast_concat]

theorem count_newline_ofLines {ls : List Text} (h : ∀ l ∈ ls, '\n' ∉ l) :
    (ofLines ls).count '\n' = ls.length := by
  induction ls with
  | nil => rfl
  | cons l ls ih =>
      have hl : l.count '\n' = 0 := List.count_eq_zero.mpr (h l (by simp))
      have hls := ih fun l' hl' => h l' (by simp [hl'])
      have hsplit : ofLines (l :: ls) = l ++ '\n' :: ofLines ls := by
        simp [ofLines]
      rw [hsplit, List.count_append, List.count_cons_self, hl, hls, List.length_cons, Nat.zero_add]

/-! ### Numbers -/

/-- A number from its digits; nothing else is one. -/
def decimal? (t : Text) : Option Nat :=
  if t ≠ [] ∧ t.all Char.isDigit then some (Nat.ofDigitChars 10 t 0) else none

theorem isDigit_of_mem_toDigits {n : Nat} {c : Char} (h : c ∈ Nat.toDigits 10 n) :
    c.isDigit = true := Nat.isDigit_of_mem_toDigits (by decide) (by decide) h

theorem decimal?_toDigits (n : Nat) : decimal? (Nat.toDigits 10 n) = some n := by
  have hdigits : (Nat.toDigits 10 n).all Char.isDigit = true :=
    List.all_eq_true.mpr fun _ hc => isDigit_of_mem_toDigits hc
  unfold decimal?
  rw [if_pos ⟨Nat.toDigits_ne_nil, hdigits⟩, Nat.ofDigitChars_ten_toDigits]

theorem not_mem_toDigits {c : Char} (hc : c.isDigit = false) (n : Nat) :
    c ∉ Nat.toDigits 10 n := by
  intro hmem
  exact absurd ((isDigit_of_mem_toDigits hmem).symm.trans hc) (by simp)

/-! ### Rows and tables -/

def row (ns : List Nat) : Text := ofFields (ns.map (Nat.toDigits 10))

def row? (l : Text) : Option (List Nat) := (fields l).mapM decimal?

theorem mapM_map {α β : Type} {f : α → β} {g : β → Option α} (h : ∀ a, g (f a) = some a)
    (as : List α) : (as.map f).mapM g = some as := by
  induction as with
  | nil => rfl
  | cons a as ih => simp [List.mapM_cons, h, ih]

theorem row?_row {ns : List Nat} (h : ns ≠ []) : row? (row ns) = some ns := by
  have hfields : fields (row ns) = ns.map (Nat.toDigits 10) := by
    unfold fields row ofFields
    refine List.splitOn_intercalate ',' ?_ (by simpa using h)
    intro f hf
    obtain ⟨n, -, rfl⟩ := List.mem_map.mp hf
    exact not_mem_toDigits rfl n
  unfold row?
  rw [hfields, mapM_map decimal?_toDigits]

/-- The fields' characters and the comma are all there is. -/
theorem not_mem_ofFields {c : Char} (hc : c ≠ ',') {fs : List Text} (h : ∀ f ∈ fs, c ∉ f) :
    c ∉ ofFields fs := by
  unfold ofFields
  induction fs with
  | nil => simp
  | cons f fs ih =>
      have hf : c ∉ f := h f (by simp)
      have hfs := ih fun f' hf' => h f' (by simp [hf'])
      cases fs with
      | nil => simpa using hf
      | cons g gs =>
          rw [List.intercalate_cons_cons]
          simp only [List.mem_append, List.mem_singleton, not_or]
          exact ⟨⟨hf, hc⟩, hfs⟩

theorem not_mem_row {c : Char} (hdigit : c.isDigit = false) (hc : c ≠ ',') (ns : List Nat) :
    c ∉ row ns := by
  refine not_mem_ofFields hc ?_
  intro f hf
  obtain ⟨n, -, rfl⟩ := List.mem_map.mp hf
  exact not_mem_toDigits hdigit n

/-- A header and rows. -/
def table (header : Text) (rows : List (List Nat)) : Text := ofLines (header :: rows.map row)

/-- The rows of a table with the given header. -/
def table? (header t : Text) : Option (List (List Nat)) :=
  match lines t with
  | [] => none
  | first :: rest => if first = header then rest.mapM row? else none

/-- A character that is no digit and no comma is in no line of a table but the header. -/
theorem not_mem_line {c : Char} (hdigit : c.isDigit = false) (hc : c ≠ ',') {header : Text}
    (hheader : c ∉ header) {rows : List (List Nat)} :
    ∀ l ∈ header :: rows.map row, c ∉ l := by
  intro l hl
  rcases List.mem_cons.mp hl with rfl | hrow
  · exact hheader
  · obtain ⟨ns, -, rfl⟩ := List.mem_map.mp hrow
    exact not_mem_row hdigit hc ns

/-- **Reading a table gives back what was written.** -/
theorem table?_table {header : Text} (hheader : '\n' ∉ header) {rows : List (List Nat)}
    (hrows : ∀ ns ∈ rows, ns ≠ []) : table? header (table header rows) = some rows := by
  have hlines : lines (table header rows) = header :: rows.map row :=
    lines_ofLines (not_mem_line rfl (by decide) hheader)
  unfold table?
  rw [hlines]
  show (if header = header then (rows.map row).mapM row? else none) = some rows
  rw [if_pos rfl]
  clear hlines
  induction rows with
  | nil => rfl
  | cons ns rows ih =>
      have hns := row?_row (hrows ns (by simp))
      have hrest := ih fun ns' h' => hrows ns' (by simp [h'])
      simp [List.mapM_cons, hns, hrest]

theorem count_newline_table {header : Text} (hheader : '\n' ∉ header) (rows : List (List Nat)) :
    (table header rows).count '\n' = rows.length + 1 := by
  unfold table
  rw [count_newline_ofLines (not_mem_line rfl (by decide) hheader), List.length_cons,
    List.length_map]

/-- Nor is it anywhere else, if it is no newline. -/
theorem not_mem_table {c : Char} (hdigit : c.isDigit = false) (hc : c ≠ ',') (hline : c ≠ '\n')
    {header : Text} (hheader : c ∉ header) (rows : List (List Nat)) :
    c ∉ table header rows := by
  intro hmem
  obtain ⟨l, hl, hcl⟩ := List.mem_flatMap.mp hmem
  rcases List.mem_append.mp hcl with hin | hend
  · exact not_mem_line hdigit hc hheader l hl hin
  · exact hline (List.mem_singleton.mp hend)

theorem getLast?_table (header : Text) (rows : List (List Nat)) :
    (table header rows).getLast? = some '\n' := by
  obtain ⟨ls, l, hls⟩ : ∃ ls l, header :: rows.map row = ls ++ [l] :=
    List.eq_nil_or_concat' (header :: rows.map row) |>.resolve_left (by simp)
  unfold table ofLines
  rw [hls, List.flatMap_append]
  simp

end Csv

end Lib
