import NoticeScan.Proofs.Assembly
import NoticeScan.Proofs.Exhaustive

/-!
# The language of an expression

The texts that an expression without conditions matches as a whole make up a language, which is
put together like the expression: products for sequences and sums of powers for repeats.
-/

namespace NoticeScan.Regex

/-! ## Texts between two positions -/

section Between

variable {text : Array Char} {start middle stop : Nat}

theorem extract_split
    (first : start ≤ middle)
    (second : middle ≤ stop) :
    (text.extract start stop).toList =
      (text.extract start middle).toList ++ (text.extract middle stop).toList := by
  rw [← Array.toList_append, Array.extract_append_extract, Nat.min_eq_left first,
    Nat.max_eq_right second]

theorem length_extract
    (within : stop ≤ text.size) :
    (text.extract start stop).toList.length = stop - start := by
  rw [Array.length_toList, Array.size_extract, Nat.min_eq_left within]

theorem extract_self :
    (text.extract start start).toList = [] := by
  simp

theorem extract_single
    (inside : start < text.size) :
    (text.extract start (start + 1)).toList = [text[start]] := by
  have here : start < text.toList.length := inside
  rw [Array.toList_extract, List.extract_eq_take_drop, List.drop_eq_getElem_cons here,
    Nat.add_sub_cancel_left, List.take_succ_cons, List.take_zero, Array.getElem_toList]

/-- A cut of the text between two positions is made at a position. -/
theorem exists_cut
    {front back : List Char}
    (ordered : start ≤ stop)
    (within : stop ≤ text.size)
    (cut : front ++ back = (text.extract start stop).toList) :
    ∃ middle, start ≤ middle ∧ middle ≤ stop ∧ (text.extract start middle).toList = front ∧
      (text.extract middle stop).toList = back := by
  have length := congrArg List.length cut
  rw [List.length_append, length_extract within] at length
  have first : start ≤ start + front.length := Nat.le_add_right _ _
  have second : start + front.length ≤ stop := by omega
  rw [extract_split first second] at cut
  have equal : front.length = (text.extract start (start + front.length)).toList.length := by
    rw [length_extract (Nat.le_trans second within)]
    omega
  obtain ⟨same, rest⟩ := List.append_inj cut equal
  exact ⟨start + front.length, first, second, same.symm, rest.symm⟩

end Between

/-! ## Ways that spell the words of a language -/

/-- Ways lead just through the words of a language. -/
def Ways.Spell (text : Array Char) (ways : Ways) (language : Language Char) : Prop :=
  ∀ start stop, start ≤ text.size →
    ((∃ passes, ways start stop passes) ↔
      start ≤ stop ∧ stop ≤ text.size ∧ (text.extract start stop).toList ∈ language)

namespace Ways

variable {text : Array Char} {first second ways : Ways} {one other language : Language Char}

theorem spell_stay : stay.Spell text 1 := by
  intro start stop inside
  rw [Language.mem_one]
  constructor
  · rintro ⟨passes, rfl, -⟩
    exact ⟨Nat.le_refl _, inside, extract_self⟩
  · rintro ⟨ordered, within, empty⟩
    have length := congrArg List.length empty
    rw [length_extract within, List.length_nil] at length
    exact ⟨[], by omega, rfl⟩

theorem Spell.andThen
    (spellsOne : first.Spell text one)
    (spellsOther : second.Spell text other) :
    (first.andThen second).Spell text (one * other) := by
  intro start stop inside
  rw [Language.mem_mul]
  constructor
  · rintro ⟨passes, middle, before, after, early, late, -⟩
    obtain ⟨ordered, within, word⟩ := (spellsOne start middle inside).mp ⟨before, early⟩
    obtain ⟨orderedToo, withinToo, wordToo⟩ := (spellsOther middle stop within).mp ⟨after, late⟩
    exact ⟨Nat.le_trans ordered orderedToo, withinToo, _, word, _, wordToo,
      (extract_split ordered orderedToo).symm⟩
  · rintro ⟨ordered, within, front, word, back, wordToo, cut⟩
    obtain ⟨middle, start_le, le_stop, rfl, rfl⟩ := exists_cut ordered within cut
    have inText := Nat.le_trans le_stop within
    obtain ⟨before, early⟩ := (spellsOne start middle inside).mpr ⟨start_le, inText, word⟩
    obtain ⟨after, late⟩ := (spellsOther middle stop inText).mpr ⟨le_stop, within, wordToo⟩
    exact ⟨before ++ after, middle, before, after, early, late, rfl⟩

theorem Spell.times
    (spells : ways.Spell text language)
    (count : Nat) :
    (Ways.times count ways).Spell text (language ^ count) := by
  induction count with
  | zero => exact spell_stay
  | succ count inductionHypothesis =>
      rw [pow_succ']
      exact spells.andThen inductionHypothesis

end Ways

/-- Words of a language one after the other, as many as the bounds of a repeat allow. -/
def counted (low : Nat) (high : Option Nat) (language : Language Char) : Language Char :=
  {word | ∃ count, low ≤ count ∧ (∀ most ∈ high, count ≤ most) ∧ word ∈ language ^ count}

theorem Ways.Spell.between
    {text : Array Char} {ways : Ways} {language : Language Char}
    (spells : ways.Spell text language)
    {low : Nat} {high : Option Nat}
    (ordered : high.all (low ≤ ·) = true) :
    (Ways.between low high ways).Spell text (counted low high language) := by
  have bound : ∀ most ∈ high, max low most = most := by
    rintro most rfl
    exact Nat.max_eq_right (by simpa using ordered)
  intro start stop inside
  constructor
  · rintro ⟨passes, count, least, most, rounds⟩
    obtain ⟨le, within, word⟩ := (spells.times count start stop inside).mp ⟨passes, rounds⟩
    exact ⟨le, within, count, least, fun top is => bound top is ▸ most top is, word⟩
  · rintro ⟨le, within, count, least, most, word⟩
    obtain ⟨passes, rounds⟩ := (spells.times count start stop inside).mpr ⟨le, within, word⟩
    exact ⟨passes, count, least, fun top is => (bound top is).symm ▸ most top is, rounds⟩

/-- The words of one character that is accepted. -/
def letters (accepts : Char → Prop) : Language Char :=
  {word | ∃ c, accepts c ∧ word = [c]}

theorem mem_letters_pow
    {accepts : Char → Prop}
    {count : Nat}
    {word : List Char} :
    word ∈ letters accepts ^ count ↔ word.length = count ∧ ∀ c ∈ word, accepts c := by
  induction count generalizing word with
  | zero =>
      rw [pow_zero, Language.mem_one, List.length_eq_zero_iff]
      exact ⟨fun none => ⟨none, by simp [none]⟩, And.left⟩
  | succ count inductionHypothesis =>
      rw [pow_succ', Language.mem_mul]
      constructor
      · rintro ⟨front, ⟨c, accepted, rfl⟩, back, power, rfl⟩
        obtain ⟨length, all⟩ := inductionHypothesis.mp power
        exact ⟨congrArg Nat.succ length, List.forall_mem_cons.mpr ⟨accepted, all⟩⟩
      · rintro ⟨length, all⟩
        obtain ⟨c, rest, rfl⟩ := List.exists_cons_of_length_eq_add_one length
        obtain ⟨accepted, others⟩ := List.forall_mem_cons.mp all
        have power := inductionHypothesis.mpr ⟨Nat.succ.inj length, others⟩
        exact ⟨[c], ⟨c, accepted, rfl⟩, rest, power, rfl⟩

/-- A repeat of single characters is a run with bounds on its length. -/
theorem mem_counted_letters
    {accepts : Char → Prop}
    {low : Nat}
    {high : Option Nat}
    {word : List Char} :
    word ∈ counted low high (letters accepts) ↔
      low ≤ word.length ∧ (∀ most ∈ high, word.length ≤ most) ∧ ∀ c ∈ word, accepts c := by
  constructor
  · rintro ⟨count, least, most, power⟩
    obtain ⟨rfl, all⟩ := mem_letters_pow.mp power
    exact ⟨least, most, all⟩
  · rintro ⟨least, most, all⟩
    exact ⟨word.length, least, most, mem_letters_pow.mpr ⟨rfl, all⟩⟩

theorem counted_letters_top :
    counted 0 none (letters fun _ => True) = ⊤ := by
  ext word
  rw [mem_counted_letters]
  exact ⟨fun _ => Set.mem_univ word, fun _ => ⟨Nat.zero_le _, nofun, fun _ _ => trivial⟩⟩

theorem Ways.spell_oneOf
    (text : Array Char)
    (test : CharTest) :
    (Ways.oneOf text test).Spell text (letters fun c => test.passes c = true) := by
  intro start stop _
  constructor
  · rintro ⟨passes, ⟨c, here, passed⟩, rfl, -⟩
    obtain ⟨inside, rfl⟩ := Array.getElem?_eq_some_iff.mp here
    exact ⟨Nat.le_succ _, inside, text[start], passed, extract_single inside⟩
  · rintro ⟨le, within, c, passed, word⟩
    have length := congrArg List.length word
    rw [length_extract within, List.length_singleton] at length
    obtain rfl : stop = start + 1 := by omega
    rw [extract_single within, List.singleton_inj] at word
    exact ⟨[], ⟨c, word ▸ Array.getElem?_eq_getElem within, passed⟩, rfl, rfl⟩

/-! ## Items that mean a language -/

/-- Items in which nothing is wrong and whose ways can all be taken mean a language. -/
structure Means (items : List Item) (language : Language Char) : Prop where
  unconditional : ∀ item ∈ items, item.node.unconditional = true
  bare : ∀ item ∈ items, item.node.bare = true
  late : ∀ item ∈ items, item.late = none
  spells : ∀ text, (itemsWays text items).Spell text language

theorem unconditional_sequence
    {nodes : List Node}
    (unconditional : ∀ node ∈ nodes, node.unconditional = true) :
    (Node.sequence nodes).unconditional = true := by
  induction nodes with
  | nil => rfl
  | cons node rest inductionHypothesis =>
      obtain ⟨here, others⟩ := List.forall_mem_cons.mp unconditional
      cases rest with
      | nil => exact here
      | cons next more => exact Bool.and_eq_true_iff.mpr ⟨here, inductionHypothesis others⟩

namespace Means

variable {items more : List Item} {one other language : Language Char}

theorem unconditional_ofItems
    (means : Means items language) :
    (Part.ofItems items).node.unconditional = true := by
  refine unconditional_sequence fun node member => ?_
  obtain ⟨part, inside, rfl⟩ := List.mem_map.mp member
  obtain ⟨item, among, rfl⟩ := List.mem_map.mp inside
  exact means.unconditional item among

theorem nil : Means [] 1 :=
  ⟨fun _ none => absurd none List.not_mem_nil, fun _ none => absurd none List.not_mem_nil,
    fun _ none => absurd none List.not_mem_nil, fun _ => Ways.spell_stay⟩

theorem append
    (first : Means items one)
    (second : Means more other) :
    Means (items ++ more) (one * other) where
  unconditional := List.forall_mem_append.mpr ⟨first.unconditional, second.unconditional⟩
  bare := List.forall_mem_append.mpr ⟨first.bare, second.bare⟩
  late := List.forall_mem_append.mpr ⟨first.late, second.late⟩
  spells := by
    intro text
    rw [itemsWays_append]
    exact (first.spells text).andThen (second.spells text)

/-- An item that is one character. -/
theorem single
    {item : Item}
    {test : CharTest}
    (node : item.node = .char test)
    (late : item.late = none) :
    Means [item] (letters fun c => test.passes c = true) where
  unconditional := List.forall_mem_singleton.mpr (by rw [node]; rfl)
  bare := List.forall_mem_singleton.mpr (by rw [node]; rfl)
  late := List.forall_mem_singleton.mpr late
  spells := by
    intro text
    rw [itemsWays_single, node]
    exact Ways.spell_oneOf text test

/-- A repeat of items. -/
theorem repeating
    (means : Means items language)
    (flags : Flags)
    (terse : flags.template = false)
    {low high : Nat}
    (ordered : low ≤ high) :
    Means [.repeating flags .greedy low high (.ofItems items)]
      (counted low (if high = endless then none else some high) language) := by
  have allowed : (if high = endless then none else some high : Option Nat).all (low ≤ ·) = true := by
    split
    · rfl
    · simpa using ordered
  refine ⟨List.forall_mem_singleton.mpr ?_, List.forall_mem_singleton.mpr ?_,
    List.forall_mem_singleton.mpr ?_, ?_⟩
  · exact Bool.and_eq_true_iff.mpr
      ⟨Bool.and_eq_true_iff.mpr ⟨rfl, allowed⟩, means.unconditional_ofItems⟩
  · exact (bare_ofItems items).mpr means.bare
  · have late : (Item.repeating flags .greedy low high (.ofItems items)).late =
        if flags.template then some (.templateRepeat .greedy) else (Part.ofItems items).late := rfl
    rw [late, terse, if_neg Bool.false_ne_true]
    exact (late_ofItems items).mpr means.late
  · intro text
    rw [itemsWays_single]
    exact (means.spells text).between allowed

end Means

/-- An expression that means a language matches the words of it. -/
theorem Means.matchesWhole_iff
    {items : List Item}
    {language : Language Char}
    (means : Means items language)
    {regex : Regex}
    (node : regex.node = (Part.ofItems items).node)
    (text : Array Char) :
    regex.matchesWhole text = true ↔ text.toList ∈ language := by
  have unconditional : regex.node.unconditional = true := node ▸ means.unconditional_ofItems
  have fits : regex.node.Fits 0 0 := by
    rw [node]
    exact Node.fits_of_bare ((bare_ofItems items).mpr means.bare) (Nat.le_refl 0)
  have spells := means.spells text 0 text.size (Nat.zero_le _)
  rw [Regex.matchesWhole_iff unconditional fits, node]
  rw [itemsWays, Array.extract_size] at spells
  exact spells.trans ⟨fun all => all.2.2, fun word => ⟨Nat.zero_le _, Nat.le_refl _, word⟩⟩

end NoticeScan.Regex
