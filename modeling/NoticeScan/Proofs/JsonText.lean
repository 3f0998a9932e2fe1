import Mathlib
import NoticeScan.Json.Lines
import NoticeScan.Json.Reader

/-!
# Writing JSON and reading it back

What the compact form of a value is read as: the value itself, unless there are decimals in it,
integers of more than 64 bits, or objects with two fields of one name. The compact form has no
line feed in it.
-/

namespace NoticeScan.Json

/-! ## Values that texts can hold -/

/-- A value without decimals, whose integers fit into 64 bits, and whose objects have fields of
different names. -/
inductive Exact : Json → Prop
  | null : Exact .null
  | bool (truth : Bool) : Exact (.bool truth)
  | int {n : Int} (small : fits n = true) : Exact (.int n)
  | string (text : String) : Exact (.string text)
  | array {items : List Json} (each : ∀ item ∈ items, Exact item) : Exact (.array items)
  | object {fields : List (String × Json)} (distinct : (fields.map Prod.fst).Nodup)
      (each : ∀ field ∈ fields, Exact field.2) : Exact (.object fields)

/-- What may stand behind a value: nothing, or a sign that ends a number. -/
def Closes (rest : List Char) : Prop :=
  ∀ c ∈ rest.head?, c ∈ [',', ']', '\x7d', '\n']

theorem closes_nil : Closes [] := by
  simp [Closes]

theorem closes_cons {c : Char} {rest : List Char} :
    Closes (c :: rest) ↔ c ∈ [',', ']', '\x7d', '\n'] := by
  simp [Closes]

section Text

variable {c : Char} {rest : List Char}

theorem skipLayout_cons
    (visible : isLayout c = false) :
    skipLayout (c :: rest) = c :: rest := by
  simp [skipLayout, visible]

/-! ## Numbers -/

/-- A digit of base ten. -/
def IsDigit (c : Char) : Prop :=
  '0' ≤ c ∧ c ≤ '9'

theorem isDigit_of_mem_toDigits {n : Nat} (member : c ∈ Nat.toDigits 10 n) :
    IsDigit c := by
  have digit := Nat.isDigit_of_mem_toDigits (by decide) (by decide) member
  simpa [Char.isDigit, IsDigit, Char.le_def] using digit

theorem not_isDigit_of_closes
    (closes : Closes (c :: rest)) :
    ¬ IsDigit c := by
  have signs := closes_cons.mp closes
  simp only [List.mem_cons, List.not_mem_nil, or_false] at signs
  rcases signs with rfl | rfl | rfl | rfl <;> simp [IsDigit]

theorem takeDigits_append
    {ds : List Char}
    (digits : ∀ d ∈ ds, IsDigit d)
    (closes : Closes rest) :
    takeDigits (ds ++ rest) = (ds, rest) := by
  have all : ∀ d ∈ ds, (decide ('0' ≤ d) && decide (d ≤ '9')) = true := by
    simpa [IsDigit] using digits
  rw [takeDigits, List.span_eq_takeWhile_dropWhile, List.takeWhile_append_of_pos all,
    List.dropWhile_append_of_pos all]
  cases rest with
  | nil => simp
  | cons c rest =>
      have other : (decide ('0' ≤ c) && decide (c ≤ '9')) = false := by
        simpa [IsDigit] using not_isDigit_of_closes closes
      rw [List.takeWhile_cons, List.dropWhile_cons, other]
      simp

theorem digitsValue_toDigits (n : Nat) :
    digitsValue (Nat.toDigits 10 n) = n := by
  have value (ds : List Char) : digitsValue ds = Nat.ofDigitChars 10 ds 0 := by
    simp only [digitsValue, Nat.ofDigitChars_eq_foldl, Nat.mul_comm]
    rfl
  rw [value, Nat.ofDigitChars_ten_toDigits]

/-- Only the number zero is written with a zero at its start. -/
theorem head?_toDigits {n : Nat} (long : (Nat.toDigits 10 n).length ≠ 1) :
    (Nat.toDigits 10 n).head? ≠ some '0' := by
  induction n using Nat.strong_induction_on with
  | _ n inductionHypothesis =>
      by_cases small : n < 10
      · simp [Nat.toDigits_of_lt_base small] at long
      · have ten : 10 ≤ n := Nat.le_of_not_lt small
        rw [Nat.toDigits_of_base_le (by decide) ten, List.head?_append_of_ne_nil _ Nat.toDigits_ne_nil]
        by_cases shorter : (Nat.toDigits 10 (n / 10)).length = 1
        · have positive : n / 10 ≠ 0 := by omega
          have below : n / 10 < 10 := by
            have := (Nat.length_toDigits_le_iff (by decide : 1 < 10) (by decide : 0 < 1)).mp
              shorter.le
            simpa using this
          rw [Nat.toDigits_of_lt_base below]
          generalize n / 10 = m at positive below
          interval_cases m <;> simp_all
        · exact inductionHypothesis _ (by omega) shorter

theorem fraction?_closes (closes : Closes rest) :
    fraction? rest = some (none, rest) := by
  unfold fraction?
  split
  · simp [Closes] at closes
  · rfl

theorem exponent?_closes (closes : Closes rest) :
    exponent? rest = some (none, rest) := by
  cases rest with
  | nil => rfl
  | cons c rest =>
      have signs := closes_cons.mp closes
      simp only [List.mem_cons, List.not_mem_nil, or_false] at signs
      rcases signs with rfl | rfl | rfl | rfl <;> rfl

theorem digits_natCast (n : Nat) :
    digits n = Nat.toDigits 10 n := by
  have shown : digits n = (Nat.repr n).toList := rfl
  rw [shown, Nat.toList_repr]

theorem digits_negSucc (n : Nat) :
    digits (.negSucc n) = '-' :: Nat.toDigits 10 (n + 1) := by
  have shown : digits (.negSucc n) = ("-" ++ Nat.repr (n + 1)).toList := rfl
  rw [shown, String.toList_append, Nat.toList_repr]
  rfl

theorem noLeadingZero (n : Nat) :
    ((Nat.toDigits 10 n).length != 1 && (Nat.toDigits 10 n).head? == some '0') = false := by
  by_cases short : (Nat.toDigits 10 n).length = 1
  · simp [short]
  · simp [head?_toDigits short]

/-- The digits of an integer are read as that integer. -/
theorem number?_digits
    {n : Int}
    (small : fits n = true)
    (closes : Closes rest) :
    number? narrowInteger (digits n ++ rest) = some (.int n, rest) := by
  have taken (n : Nat) := takeDigits_append (fun _ => isDigit_of_mem_toDigits (n := n)) closes
  have fraction := fraction?_closes closes
  have exponent := exponent?_closes closes
  cases n with
  | ofNat n =>
      have noSign (tail : List Char) : Nat.toDigits 10 n ++ rest ≠ '-' :: tail := fun same => by
        have first : '-' ∈ Nat.toDigits 10 n := by
          cases spelled : Nat.toDigits 10 n with
          | nil => exact absurd spelled Nat.toDigits_ne_nil
          | cons c ds => simp_all
        simpa [IsDigit] using isDigit_of_mem_toDigits first
      rw [Int.ofNat_eq_natCast] at small ⊢
      rw [digits_natCast, number?]
      · simp only [taken]
        split
        · simp_all [Nat.toDigits_ne_nil]
        · rename_i whole behind _ same
          obtain ⟨rfl, rfl⟩ := Prod.mk.inj same
          simp only [noLeadingZero]
          simp [fraction, exponent, digitsValue_toDigits, narrowInteger, small]
      · exact noSign
  | negSucc n =>
      rw [digits_negSucc]
      simp only [List.cons_append, number?, taken]
      split
      · simp_all [Nat.toDigits_ne_nil]
      · rename_i whole behind _ same
        obtain ⟨rfl, rfl⟩ := Prod.mk.inj same
        have negated : (-1 : Int) + -(n : Int) = .negSucc n := by omega
        simp only [noLeadingZero]
        simp [fraction, exponent, digitsValue_toDigits, narrowInteger, negated, small]

/-! ## Strings -/

variable {found : List Char}

theorem hexUnit?_hexDigit (low : c.toNat < 0x20) :
    hexUnit? '0' '0' (hexDigit (c.toNat / 16)) (hexDigit c.toNat) = some c.toNat := by
  generalize c.toNat = n at low
  revert n
  decide

theorem stringFrom_plain
    (visible : 0x20 ≤ c.toNat)
    (notQuote : c ≠ '"')
    (notSlash : c ≠ '\\') :
    stringFrom (c :: rest) none found = stringFrom rest none (c :: found) := by
  rw [stringFrom]
  · simp [notSlash]
    omega
  · simpa using notQuote
  · intros
    simp_all
  · intros
    simp_all

/-- A character is read back as it has been written, escaped or not. -/
theorem stringFrom_escaped (c : Char) :
    stringFrom (escaped c ++ rest) none found = stringFrom rest none (c :: found) := by
  unfold escaped
  split_ifs with quote slash back feed line ret tab low
  · simp_all [stringFrom, letterEscape?]
  · simp_all [stringFrom, letterEscape?]
  · simp_all [stringFrom, letterEscape?]
  · simp_all [stringFrom, letterEscape?]
  · simp_all [stringFrom, letterEscape?]
  · simp_all [stringFrom, letterEscape?]
  · simp_all [stringFrom, letterEscape?]
  · have whole : joinUnit? none c.toNat = some (none, some c) := by
      have notHigh : ¬ 0xD800 ≤ c.toNat := by omega
      have notLow : ¬ 0xDC00 ≤ c.toNat := by omega
      simp [joinUnit?, notHigh, notLow, Char.ofNat_toNat]
    simp only [List.cons_append, List.nil_append, stringFrom, hexUnit?_hexDigit low, whole]
    simp
  · refine stringFrom_plain (by omega) ?_ ?_ <;> simp_all

/-- What stands between quotes is read as the string. -/
theorem stringFrom_flatMap (s : List Char) :
    stringFrom (s.flatMap escaped ++ '"' :: rest) none found = some (found.reverse ++ s, rest) := by
  induction s generalizing found with
  | nil => simp [stringFrom]
  | cons c s inductionHypothesis =>
      rw [List.flatMap_cons, List.append_assoc, stringFrom_escaped, inductionHypothesis]
      simp

end Text

/-! ## The compact form in front of a text -/

mutual

theorem printBefore_append (value : Json) (front behind : List Char) :
    value.printBefore (front ++ behind) = value.printBefore front ++ behind := by
  cases value with
  | null => simp [printBefore]
  | bool truth => cases truth <;> simp [printBefore]
  | int n => simp [printBefore]
  | decimal mantissa exponent => simp [printBefore]
  | string text => simp [printBefore]
  | array items =>
      cases items with
      | nil => simp [printBefore]
      | cons item items =>
          simp [printBefore, printItems_append items, printBefore_append item]
  | object fields =>
      cases fields with
      | nil => simp [printBefore]
      | cons field fields =>
          simp [printBefore, printFields_append fields, printBefore_append field.2]

theorem printItems_append (items : List Json) (front behind : List Char) :
    printItems items (front ++ behind) = printItems items front ++ behind := by
  cases items with
  | nil => simp [printItems]
  | cons item items =>
      simp [printItems, printItems_append items, printBefore_append item]

theorem printFields_append (fields : List (String × Json)) (front behind : List Char) :
    printFields fields (front ++ behind) = printFields fields front ++ behind := by
  cases fields with
  | nil => simp [printFields]
  | cons field fields =>
      simp [printFields, printFields_append fields, printBefore_append field.2]

end

theorem printBefore_eq (value : Json) (rest : List Char) :
    value.printBefore rest = value.print ++ rest := by
  rw [print, ← printBefore_append, List.nil_append]

theorem head_digits (n : Int) :
    ∃ c tail, digits n = c :: tail ∧ (c = '-' ∨ IsDigit c) := by
  cases n with
  | ofNat n =>
      rw [Int.ofNat_eq_natCast, digits_natCast]
      cases spelled : Nat.toDigits 10 n with
      | nil => exact absurd spelled Nat.toDigits_ne_nil
      | cons c tail =>
          refine ⟨c, tail, rfl, .inr (isDigit_of_mem_toDigits (n := n) ?_)⟩
          simp [spelled]
  | negSucc n => exact ⟨'-', _, digits_negSucc n, .inl rfl⟩

/-- A sign at which a value can start. -/
def Opens (c : Char) : Prop :=
  c = '-' ∨ IsDigit c ∨ c ∈ ['"', '[', '\x7b', 'n', 't', 'f']

theorem Opens.visible {c : Char} (opens : Opens c) :
    isLayout c = false ∧ c ≠ ']' ∧ c ≠ '\x7d' := by
  rcases opens with rfl | digit | other
  · decide
  · refine ⟨?_, ?_, ?_⟩
    · simp only [isLayout, Bool.or_eq_false_iff, beq_eq_false_iff_ne]
      refine ⟨⟨⟨?_, ?_⟩, ?_⟩, ?_⟩ <;> rintro rfl <;> simp [IsDigit] at digit
    all_goals
      rintro rfl
      simp [IsDigit] at digit
  · simp only [List.mem_cons, List.not_mem_nil, or_false] at other
    rcases other with rfl | rfl | rfl | rfl | rfl | rfl <;> decide

/-- No value starts with layout or with a closing sign. -/
theorem head_printBefore (value : Json) (rest : List Char) :
    ∃ c tail, value.printBefore rest = c :: tail ∧ Opens c := by
  cases value with
  | null => exact ⟨'n', _, rfl, by simp [Opens]⟩
  | bool truth => cases truth with
      | true => exact ⟨'t', _, rfl, by simp [Opens]⟩
      | false => exact ⟨'f', _, rfl, by simp [Opens]⟩
  | int n =>
      obtain ⟨c, tail, spelled, starts⟩ := head_digits n
      exact ⟨c, tail ++ rest, by simp [printBefore, spelled], starts.imp_right .inl⟩
  | decimal mantissa exponent =>
      obtain ⟨c, tail, spelled, starts⟩ := head_digits mantissa
      exact ⟨c, _, by simp [printBefore, spelled]; rfl, starts.imp_right .inl⟩
  | string text => exact ⟨'"', _, rfl, by simp [Opens]⟩
  | array items => cases items with
      | nil => exact ⟨'[', _, rfl, by simp [Opens]⟩
      | cons item items => exact ⟨'[', _, rfl, by simp [Opens]⟩
  | object fields => cases fields with
      | nil => exact ⟨'\x7b', _, rfl, by simp [Opens]⟩
      | cons field fields => exact ⟨'\x7b', _, rfl, by simp [Opens]⟩

/-! ## Reading the compact form -/

section Read

variable {value : Json} {rest : List Char}

/-- A value is read from its compact form, whatever ends it, and what is behind stays. -/
def Reads (value : Json) : Prop :=
  ∀ (steps : Nat) (rest : List Char), Closes rest → value.print.length < steps →
    valueFrom narrowInteger steps (value.printBefore rest) = some (value, rest)

/-- What opens a value is not layout, which is what is skipped before it. -/
theorem skipLayout_printBefore (value : Json) (rest : List Char) :
    skipLayout (value.printBefore rest) = value.printBefore rest := by
  obtain ⟨c, tail, spelled, opens⟩ := head_printBefore value rest
  rw [spelled, skipLayout_cons opens.visible.1]

/-- The first step is made at the start of a value. -/
theorem reads_of_succ
    (read : ∀ steps rest, Closes rest → value.print.length ≤ steps →
      valueFrom narrowInteger (steps + 1) (value.printBefore rest) = some (value, rest)) :
    Reads value := by
  intro steps rest closes enough
  cases steps with
  | zero => simp at enough
  | succ steps => exact read steps rest closes (Nat.le_of_lt_succ enough)

theorem reads_null :
    Reads .null := by
  apply reads_of_succ
  intro steps rest closes enough
  simp [printBefore, valueFrom, skipLayout_cons, isLayout, word?]

theorem reads_bool (truth : Bool) :
    Reads (.bool truth) := by
  apply reads_of_succ
  intro steps rest closes enough
  cases truth with
  | true => simp [printBefore, valueFrom, skipLayout_cons, isLayout, word?]
  | false => simp [printBefore, valueFrom, skipLayout_cons, isLayout, word?]

theorem reads_int {n : Int} (small : fits n = true) :
    Reads (.int n) := by
  apply reads_of_succ
  intro steps rest closes enough
  obtain ⟨c, tail, spelled, starts⟩ := head_digits n
  have opens : Opens c := starts.imp_right .inl
  have notWord : c ∉ ['"', '[', '\x7b', 'n', 't', 'f'] := by
    intro word
    simp only [List.mem_cons, List.not_mem_nil, or_false] at word
    rcases word with rfl | rfl | rfl | rfl | rfl | rfl <;> simp [IsDigit] at starts
  have read := number?_digits small closes
  simp only [printBefore, valueFrom, spelled, List.cons_append,
    skipLayout_cons opens.visible.1] at read ⊢
  split <;> simp_all

theorem reads_string (text : String) :
    Reads (.string text) := by
  apply reads_of_succ
  intro steps rest closes enough
  simp [printBefore, quote, valueFrom, skipLayout_cons, isLayout, stringFrom_flatMap]

/-! ## Reading arrays -/

section Items

variable {item : Json} {items found : List Json} {steps : Nat}

theorem itemsFrom_last
    (reads : Reads item)
    (enough : item.print.length < steps) :
    itemsFrom narrowInteger (steps + 1) found (item.printBefore (']' :: rest)) =
      some (.array (found.reverse ++ [item]), rest) := by
  have read := reads steps (']' :: rest) (by simp [closes_cons]) enough
  simp [itemsFrom, read, skipLayout_cons, isLayout]

theorem itemsFrom_next
    (reads : Reads item)
    (enough : item.print.length < steps) :
    itemsFrom narrowInteger (steps + 1) found (item.printBefore (',' :: rest)) =
      itemsFrom narrowInteger steps (item :: found) rest := by
  have read := reads steps (',' :: rest) (by simp [closes_cons]) enough
  simp [itemsFrom, read, skipLayout_cons, isLayout]

/-- The items of an array are read one by one, up to the bracket. -/
theorem itemsFrom_print
    (first : Reads item)
    (others : ∀ other ∈ items, Reads other)
    (enough : item.print.length + (printItems items []).length ≤ steps) :
    itemsFrom narrowInteger (steps + 1) found (item.printBefore (printItems items rest)) =
      some (.array (found.reverse ++ item :: items), rest) := by
  induction items generalizing item found steps with
  | nil =>
      rw [printItems, List.length_singleton] at enough
      rw [printItems]
      exact itemsFrom_last first enough
  | cons next items inductionHypothesis =>
      rw [printItems, printBefore_eq] at enough
      simp only [List.length_cons, List.length_append] at enough
      obtain ⟨fewer, rfl⟩ : ∃ fewer, steps = fewer + 1 := ⟨steps - 1, by omega⟩
      have shorter : item.print.length < fewer + 1 := by omega
      have behind : next.print.length + (printItems items []).length ≤ fewer := by omega
      rw [List.forall_mem_cons] at others
      rw [printItems, itemsFrom_next first shorter, inductionHypothesis others.1 others.2 behind]
      simp

theorem reads_array (each : ∀ item ∈ items, Reads item) :
    Reads (.array items) := by
  apply reads_of_succ
  intro steps rest closes enough
  cases items with
  | nil => simp [printBefore, valueFrom, skipLayout_cons, isLayout]
  | cons item items =>
      rw [print, printBefore, printBefore_eq] at enough
      simp only [List.length_cons, List.length_append] at enough
      obtain ⟨fewer, rfl⟩ : ∃ fewer, steps = fewer + 1 := ⟨steps - 1, by omega⟩
      have behind : item.print.length + (printItems items []).length ≤ fewer := by omega
      rw [List.forall_mem_cons] at each
      have read (found : List Json) :
          itemsFrom narrowInteger (fewer + 1) found (item.printBefore (printItems items rest)) =
            some (.array (found.reverse ++ item :: items), rest) :=
        itemsFrom_print each.1 each.2 behind
      obtain ⟨c, tail, spelled, opens⟩ := head_printBefore item (printItems items rest)
      simp only [printBefore, valueFrom, skipLayout_cons (by decide : isLayout '[' = false),
        skipLayout_printBefore]
      rw [spelled] at read ⊢
      split
      · simp_all [opens.visible]
      · exact read []

end Items

/-! ## Reading objects -/

section Fields

variable {key : String} {fields found : List (String × Json)} {steps : Nat}

theorem setField_of_notMem (other : key ∉ found.map Prod.fst) :
    setField key value found = found ++ [(key, value)] := by
  induction found with
  | nil => rfl
  | cons field found inductionHypothesis =>
      have different : field.1 ≠ key := fun same => other (by simp [same])
      have behind : key ∉ found.map Prod.fst := fun member => other (by simp [member])
      simp [setField, different, inductionHypothesis behind]

theorem notMem_of_distinct
    (distinct : ((found ++ (key, value) :: fields).map Prod.fst).Nodup) :
    key ∉ found.map Prod.fst := by
  simp only [List.map_append, List.map_cons, List.nodup_append] at distinct
  exact fun member => distinct.2.2 key member key (by simp) rfl

theorem fieldsFrom_last
    (reads : Reads value)
    (enough : value.print.length < steps) :
    fieldsFrom narrowInteger (steps + 1) found
        (quote key.toList ++ ':' :: value.printBefore ('\x7d' :: rest)) =
      some (.object (setField key value found), rest) := by
  have read := reads steps ('\x7d' :: rest) (by simp [closes_cons]) enough
  simp [fieldsFrom, quote, stringFrom_flatMap, read, skipLayout_cons, isLayout]

theorem fieldsFrom_next
    (reads : Reads value)
    (enough : value.print.length < steps) :
    fieldsFrom narrowInteger (steps + 1) found
        (quote key.toList ++ ':' :: value.printBefore (',' :: rest)) =
      fieldsFrom narrowInteger steps (setField key value found) rest := by
  have read := reads steps (',' :: rest) (by simp [closes_cons]) enough
  simp [fieldsFrom, quote, stringFrom_flatMap, read, skipLayout_cons, isLayout]

/-- The fields of an object are read one by one, up to the brace. None takes the place of one
before, since their names are different. -/
theorem fieldsFrom_print
    (first : Reads value)
    (others : ∀ other ∈ fields, Reads other.2)
    (distinct : ((found ++ (key, value) :: fields).map Prod.fst).Nodup)
    (enough : value.print.length + (printFields fields []).length ≤ steps) :
    fieldsFrom narrowInteger (steps + 1) found
        (quote key.toList ++ ':' :: value.printBefore (printFields fields rest)) =
      some (.object (found ++ (key, value) :: fields), rest) := by
  have new : setField key value found = found ++ [(key, value)] :=
    setField_of_notMem (notMem_of_distinct distinct)
  induction fields generalizing key value found steps with
  | nil =>
      rw [printFields, List.length_singleton] at enough
      rw [printFields, fieldsFrom_last first enough, new]
  | cons next fields inductionHypothesis =>
      obtain ⟨name, held⟩ := next
      rw [printFields, printBefore_eq] at enough
      simp only [quote, List.length_cons, List.length_append] at enough
      obtain ⟨fewer, rfl⟩ : ∃ fewer, steps = fewer + 1 := ⟨steps - 1, by omega⟩
      have shorter : value.print.length < fewer + 1 := by omega
      have behind : held.print.length + (printFields fields []).length ≤ fewer := by omega
      have apart : (((found ++ [(key, value)]) ++ (name, held) :: fields).map Prod.fst).Nodup := by
        simpa using distinct
      rw [List.forall_mem_cons] at others
      rw [printFields, fieldsFrom_next first shorter, new,
        inductionHypothesis others.1 others.2 apart behind
          (setField_of_notMem (notMem_of_distinct apart))]
      simp

theorem reads_object
    (distinct : (fields.map Prod.fst).Nodup)
    (each : ∀ field ∈ fields, Reads field.2) :
    Reads (.object fields) := by
  apply reads_of_succ
  intro steps rest closes enough
  cases fields with
  | nil => simp [printBefore, valueFrom, skipLayout_cons, isLayout]
  | cons field fields =>
      obtain ⟨key, value⟩ := field
      rw [print, printBefore, printBefore_eq] at enough
      simp only [List.length_cons, List.length_append] at enough
      obtain ⟨fewer, rfl⟩ : ∃ fewer, steps = fewer + 1 := ⟨steps - 1, by omega⟩
      have behind : value.print.length + (printFields fields []).length ≤ fewer := by omega
      rw [List.forall_mem_cons] at each
      have read :
          fieldsFrom narrowInteger (fewer + 1) []
              (quote key.toList ++ ':' :: value.printBefore (printFields fields rest)) =
            some (.object ([] ++ (key, value) :: fields), rest) :=
        fieldsFrom_print each.1 each.2 distinct behind
      simp only [printBefore, valueFrom, skipLayout_cons (by decide : isLayout '\x7b' = false)]
      simpa [quote, skipLayout_cons, isLayout] using read

end Fields

/-- A value that a text can hold is read from its compact form. -/
theorem Exact.reads
    (exact : Exact value) :
    Reads value := by
  induction exact with
  | null => exact reads_null
  | bool truth => exact reads_bool truth
  | int small => exact reads_int small
  | string text => exact reads_string text
  | array each inductionHypothesis => exact reads_array inductionHypothesis
  | object distinct each inductionHypothesis => exact reads_object distinct inductionHypothesis

/-! ## Lines -/

/-- The compact form of a value is read as the value, also with layout behind it. -/
theorem parseWith?_print
    (exact : Exact value)
    (closes : Closes rest)
    (layout : skipLayout rest = []) :
    parseWith? narrowInteger (value.print ++ rest) = some value := by
  have enough : value.print.length < (value.print ++ rest).length + 1 := by
    simp only [List.length_append]
    omega
  have read := exact.reads _ _ closes enough
  rw [printBefore_eq] at read
  simp only [parseWith?, read]
  simp [layout]

/-- The line of a value is read as the value. -/
theorem parseWith?_line (exact : Exact value) :
    parseWith? narrowInteger value.line = some value :=
  parseWith?_print exact (by simp [closes_cons]) rfl

theorem Exact.allFit (exact : Exact value) :
    value.allFit = true := by
  induction exact with
  | null => simp [Json.allFit]
  | bool truth => simp [Json.allFit]
  | int small => simpa [Json.allFit] using small
  | string text => simp [Json.allFit]
  | array each inductionHypothesis =>
      rename_i items
      rw [Json.allFit]
      clear each
      induction items with
      | nil => simp [allFitItems]
      | cons item items fit => simp_all [allFitItems]
  | object distinct each inductionHypothesis =>
      rename_i fields
      rw [Json.allFit]
      clear each distinct
      induction fields with
      | nil => simp [allFitFields]
      | cons field fields fit => simp_all [allFitFields]

theorem line?_of_exact (exact : Exact value) :
    value.line? = some value.line := by
  simp [line?, exact.allFit]

/-- Integers are written without a line feed. -/
theorem lineFeed_notMem_digits (n : Int) :
    '\n' ∉ digits n := by
  have plain (m : Nat) : '\n' ∉ Nat.toDigits 10 m := fun member => by
    simpa [IsDigit] using isDigit_of_mem_toDigits member
  cases n with
  | ofNat m => simpa [digits_natCast] using plain m
  | negSucc m => simpa [digits_negSucc] using plain (m + 1)

theorem lineFeed_ne_hexDigit (n : Nat) :
    '\n' ≠ hexDigit n := by
  have each : ∀ m < 16, '\n' ≠ Nat.digitChar m := by decide
  exact each (n % 16) (Nat.mod_lt n (by decide))

theorem lineFeed_notMem_escaped (c : Char) :
    '\n' ∉ escaped c := by
  unfold escaped
  split_ifs with quote slash back feed line ret tab low
  · simp
  · simp
  · simp
  · simp
  · simp
  · simp
  · simp
  · simp [lineFeed_ne_hexDigit]
  · rw [List.mem_singleton]
    rintro rfl
    exact line rfl

theorem lineFeed_notMem_quote (s : List Char) :
    '\n' ∉ quote s := by
  simp [quote, lineFeed_notMem_escaped]

mutual

/-- The compact form of a value has no line feed in it. -/
theorem lineFeed_notMem_printBefore {rest : List Char} (value : Json)
    (absent : '\n' ∉ rest) :
    '\n' ∉ value.printBefore rest := by
  cases value with
  | null => simp [printBefore, absent]
  | bool truth => cases truth <;> simp [printBefore, absent]
  | int n => simp [printBefore, absent, lineFeed_notMem_digits]
  | decimal mantissa exponent => simp [printBefore, absent, lineFeed_notMem_digits]
  | string text => simp [printBefore, absent, lineFeed_notMem_quote]
  | array items =>
      cases items with
      | nil => simp [printBefore, absent]
      | cons item items =>
          have behind := lineFeed_notMem_printItems items absent
          simp [printBefore, lineFeed_notMem_printBefore item behind]
  | object fields =>
      cases fields with
      | nil => simp [printBefore, absent]
      | cons field fields =>
          have behind := lineFeed_notMem_printFields fields absent
          simp [printBefore, lineFeed_notMem_quote, lineFeed_notMem_printBefore field.2 behind]

theorem lineFeed_notMem_printItems {rest : List Char} (items : List Json)
    (absent : '\n' ∉ rest) :
    '\n' ∉ printItems items rest := by
  cases items with
  | nil => simp [printItems, absent]
  | cons item items =>
      have behind := lineFeed_notMem_printItems items absent
      simp [printItems, lineFeed_notMem_printBefore item behind]

theorem lineFeed_notMem_printFields {rest : List Char} (fields : List (String × Json))
    (absent : '\n' ∉ rest) :
    '\n' ∉ printFields fields rest := by
  cases fields with
  | nil => simp [printFields, absent]
  | cons field fields =>
      have behind := lineFeed_notMem_printFields fields absent
      simp [printFields, lineFeed_notMem_quote, lineFeed_notMem_printBefore field.2 behind]

end

theorem lineFeed_notMem_print (value : Json) :
    '\n' ∉ value.print :=
  lineFeed_notMem_printBefore value (by simp)

end Read

end NoticeScan.Json
