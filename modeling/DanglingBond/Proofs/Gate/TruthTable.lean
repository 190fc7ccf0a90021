import Mathlib
import DanglingBond.Gate.TruthTable

/-!
Reading and writing tables. Reading accepts exactly what writing produces (`TruthTable.parse_eq_ok_iff`): a
character that stands for a value takes one byte, so a text of such characters has as many bytes as rows. The
highest row is written first (`TruthTable.getElem?_text`).
-/

namespace DanglingBond.TruthTable

/-- How a value is written. -/
def charOf (value : Bool) : Char := if value then '1' else '0'

theorem bitOf?_eq_some_iff {c : Char} {value : Bool} : bitOf? c = some value ↔ c = charOf value := by
  constructor
  · unfold bitOf?
    split <;> rintro ⟨⟩ <;> rfl
  · rintro rfl
    cases value <;> rfl

theorem exists_charOf_iff {c : Char} : (∃ value, c = charOf value) ↔ c = '0' ∨ c = '1' := Bool.exists_bool

/-- Characters are read one by one, and each has to stand for a value. -/
theorem mapM_bitOf?_eq_some_iff {characters : List Char} {rows : List Bool} :
    characters.mapM bitOf? = some rows ↔ characters = rows.map charOf := by
  induction characters generalizing rows with
  | nil => cases rows <;> simp
  | cons c characters ih =>
    simp only [List.mapM_cons, Option.bind_eq_bind, Option.bind_eq_some_iff, Option.pure_def, Option.some.injEq,
      bitOf?_eq_some_iff, ih]
    constructor
    · rintro ⟨value, rfl, others, rfl, rfl⟩
      rfl
    · intro same
      cases rows with
      | nil => contradiction
      | cons value others => exact ⟨value, (List.cons.inj same).1, others, (List.cons.inj same).2, rfl⟩

/-- Every value is written in one byte. -/
theorem utf8Len_map_charOf (rows : List Bool) : String.utf8Len (rows.map charOf) = rows.length := by
  induction rows with
  | nil => rfl
  | cons value rows ih =>
    have narrow : (charOf value).utf8Size = 1 := by cases value <;> rfl
    rw [List.map_cons, String.utf8Len_cons, ih, narrow, List.length_cons]

variable {text : String} {table : TruthTable}

theorem text_eq (table : TruthTable) : table.text = String.ofList (table.rows.toList.map charOf).reverse := by
  rw [← List.map_reverse]
  rfl

theorem length_text (table : TruthTable) : table.text.length = 2 ^ table.arity := by
  rw [text_eq, String.length_ofList, List.length_reverse, List.length_map, Vector.length_toList]

theorem utf8ByteSize_text (table : TruthTable) : table.text.utf8ByteSize = 2 ^ table.arity := by
  rw [text_eq, String.utf8ByteSize_ofList, ← List.map_reverse, utf8Len_map_charOf, List.length_reverse,
    Vector.length_toList]

theorem ofRows?_eq_some_iff {arity : Nat} (small : arity ≤ maxArity) {rows : List Bool} :
    ofRows? small rows = some table ↔ table.arity = arity ∧ table.rows.toList = rows := by
  unfold ofRows?
  constructor
  · intro built
    split at built
    · obtain rfl := Option.some.inj built
      exact ⟨rfl, rfl⟩
    · contradiction
  · rintro ⟨rfl, rfl⟩
    exact dif_pos table.rows.size_toArray

/-- A text that is accepted has as many bytes as rows, and no other character than those of the values. -/
theorem ofText?_eq_some_iff : ofText? text = some table ↔ table.text = text := by
  simp only [ofText?, Option.dite_none_right_eq_some, Option.bind_eq_some_iff, mapM_bitOf?_eq_some_iff, ofRows?_eq_some_iff]
  constructor
  · rintro ⟨_, rows, read, _, rfl⟩
    rw [text_eq, ← read, List.reverse_reverse, String.ofList_toList]
  · rintro rfl
    have arity : table.text.utf8ByteSize.log2 = table.arity := by rw [utf8ByteSize_text, Nat.log2_two_pow]
    refine ⟨⟨by rw [arity, utf8ByteSize_text], arity ▸ table.arity_le⟩, table.rows.toList, ?_, arity.symm, rfl⟩
    rw [text_eq, String.toList_ofList, List.reverse_reverse]

/-- Reading accepts exactly what writing produces. -/
theorem parse_eq_ok_iff : parse text = .ok table ↔ table.text = text := by
  rw [← ofText?_eq_some_iff]
  unfold parse
  split
  · rename_i read
    rw [read, Except.ok.injEq, Option.some.injEq]
  · rename_i refused
    simp [refused]

theorem parse_eq_error_iff {error : LogicError} :
    parse text = .error error ↔ (¬ ∃ table, parse text = .ok table) ∧ error = .invalidTruthTable text := by
  unfold parse
  split <;> simp [eq_comm]

/-- The characters of the values are read as a table if they are as many as one of an arity has rows. -/
theorem exists_text_iff : (∃ table : TruthTable, table.text = text) ↔
    (∀ c ∈ text.toList, c = '0' ∨ c = '1') ∧ ∃ arity ≤ maxArity, text.length = 2 ^ arity := by
  constructor
  · rintro ⟨table, rfl⟩
    refine ⟨fun c listed => ?_, table.arity, table.arity_le, table.length_text⟩
    rw [text_eq, String.toList_ofList, List.mem_reverse] at listed
    obtain ⟨value, _, rfl⟩ := List.mem_map.mp listed
    exact exists_charOf_iff.mp ⟨value, rfl⟩
  · rintro ⟨binary, arity, small, length⟩
    obtain ⟨values, written⟩ : text.toList ∈ Set.range (List.map charOf) := by
      rw [Set.range_list_map]
      intro c listed
      obtain ⟨value, same⟩ := exists_charOf_iff.mpr (binary c listed)
      exact ⟨value, same.symm⟩
    have full : values.reverse.toArray.size = 2 ^ arity := by
      rw [List.size_toArray, List.length_reverse, ← length, ← String.length_toList, ← written, List.length_map]
    refine ⟨⟨arity, ⟨values.reverse.toArray, full⟩, small⟩, ?_⟩
    rw [text_eq, Vector.toList_mk, List.map_reverse, List.reverse_reverse, written, String.ofList_toList]

/-- The lowest row is written last. -/
theorem getElem?_text {row : Nat} (inside : row < 2 ^ table.arity) :
    table.text.toList[table.text.length - 1 - row]? = table.rows.toList[row]?.map charOf := by
  have length : (table.rows.toList.map charOf).length = 2 ^ table.arity := by rw [List.length_map, Vector.length_toList]
  rw [length_text, text_eq, String.toList_ofList, List.getElem?_reverse (by omega), length, List.getElem?_map]
  congr 2
  omega

theorem bit_eq_true_iff {row : Nat} : table.bit row = true ↔
    row < table.text.length ∧ table.text.toList[table.text.length - 1 - row]? = some '1' := by
  rw [bit, ← Vector.getElem?_toList]
  by_cases inside : row < table.text.length
  · rw [length_text] at inside
    have listed : row < table.rows.toList.length := by rwa [Vector.length_toList]
    rw [getElem?_text inside, length_text, List.getElem?_eq_getElem listed]
    cases table.rows.toList[row] <;> simp [charOf, inside]
  · have beyond : table.rows.toList.length ≤ row := by
      rw [Vector.length_toList, ← length_text]
      exact not_lt.mp inside
    simp [List.getElem?_eq_none beyond, inside]

/-- A text is read as a table exactly when it consists of zeros and ones and its length is a power of two up to
    the largest one, and otherwise the whole text is refused. The arity of the table is the logarithm of the
    length, the value of a row stands as far from the end as the row is from the beginning, and writing
    the table gives the text back. Every table is read from the way it is written. -/
theorem parse_reversible (text : String) :
    ((∃ table, parse text = .ok table) ↔ (∀ c ∈ text.toList, c = '0' ∨ c = '1') ∧
      (∃ arity, text.length = 2 ^ arity) ∧ text.length ≤ 65536) ∧
    (∀ error, parse text = .error error → error = .invalidTruthTable text) ∧
    (∀ table, parse text = .ok table →
      table.arity = text.length.log2 ∧ table.numRows = text.length ∧
      (∀ row, table.bit row = true ↔ row < text.length ∧ text.toList[text.length - 1 - row]? = some '1') ∧
      table.text = text) ∧
    ∀ table : TruthTable, parse table.text = .ok table := by
  simp only [parse_eq_ok_iff]
  refine ⟨?_, fun error refused => (parse_eq_error_iff.mp refused).2, ?_, fun _ => trivial⟩
  · have largest : (2 : Nat) ^ maxArity = 65536 := by decide
    rw [exists_text_iff, ← largest]
    refine and_congr_right fun _ => ⟨?_, ?_⟩
    · rintro ⟨arity, small, length⟩
      exact ⟨⟨arity, length⟩, length ▸ Nat.pow_le_pow_right Nat.zero_lt_two small⟩
    · rintro ⟨⟨arity, length⟩, small⟩
      exact ⟨arity, (Nat.pow_le_pow_iff_right Nat.one_lt_two).mp (length ▸ small), length⟩
  · rintro table rfl
    refine ⟨?_, table.length_text.symm, fun _ => bit_eq_true_iff, rfl⟩
    rw [length_text, Nat.log2_two_pow]

/-- The conjunction of two inputs is written with its only one in front. A text of four bytes that are no four
    characters is no table. -/
theorem parse_reversible_and :
    (∃ table, parse "1000" = .ok table ∧ table.arity = 2 ∧ table.bit 3 = true ∧ table.bit 0 = false ∧
      parse table.text = .ok table) ∧
    "éé".utf8ByteSize = 4 ∧ ¬ ∃ table, parse "éé" = .ok table := by
  obtain ⟨accepted, _, read, back⟩ := parse_reversible "1000"
  obtain ⟨table, parsed⟩ := accepted.mpr ⟨by simp, ⟨2, by decide⟩, by decide⟩
  obtain ⟨arity, _, values, _⟩ := read table parsed
  have high : table.bit 3 = true := (values 3).mpr (by decide +kernel)
  have low : ¬ table.bit 0 = true := by
    rw [values]
    decide +kernel
  refine ⟨⟨table, parsed, arity.trans (by decide), high, Bool.eq_false_iff.mpr low, back table⟩, by decide, ?_⟩
  rw [(parse_reversible "éé").1]
  exact fun binary => absurd binary.1 (by simp)

end DanglingBond.TruthTable
