import NoticeScan.Proofs.Languages
import NoticeScan.Pattern.Compiled

/-!
# Pieces that are read exactly

Letters, character classes and repeats with bounds in digits are read in the same way in front of
almost any text. So the items that a long expression of such pieces consists of are known, and
with them the language that the expression means.
-/

namespace NoticeScan.Regex

open NoticeScan.Pattern

/-! ## Runs of characters in front of a text -/

namespace Input

theorem rest_of_peek?_plain
    {input : Input}
    {c : Char}
    (peeked : input.peek? = some (.plain c)) :
    input.rest.head? = some c := by
  unfold peek? at peeked
  split at peeked
  · cases peeked
  · cases peeked
  · rename_i d rest _ starts
    cases peeked
    rw [starts]
    rfl

theorem take?_absent
    {input : Input}
    {c : Char}
    (absent : input.rest.head? ≠ some c) :
    input.take? c = .ok none := by
  unfold take?
  rw [if_neg fun peeked => absent (rest_of_peek?_plain peeked)]

/-- A run of characters is taken up to its bound or up to a character that does not belong to
it. -/
theorem takeWhile_front
    {accepts : Char → Bool}
    {front rest : List Char}
    {count pos : Nat}
    (plain : ∀ c ∈ front, accepts c = true ∧ c ≠ '\\')
    (sound : rest ≠ ['\\'])
    (le : front.length ≤ count)
    (ends : front.length = count ∨ ∀ c, rest.head? = some c → accepts c = false) :
    takeWhile accepts count ⟨front ++ rest, pos⟩ = .ok (front, ⟨rest, pos + front.length⟩) := by
  induction front generalizing count pos with
  | nil =>
      rcases ends with none | stops
      · rw [← none]
        rfl
      · exact takeWhile_stop (fun c peeked => stops c (rest_of_peek?_plain peeked)) count
  | cons c others inductionHypothesis =>
      obtain ⟨more, rfl⟩ : ∃ more, count = more + 1 := ⟨count - 1, by simp at le; omega⟩
      obtain ⟨⟨accepted, here⟩, later⟩ := List.forall_mem_cons.mp plain
      have othersSound : others ≠ ['\\'] := by
        rintro rfl
        exact (later _ List.mem_cons_self).2 rfl
      have taken : takeWhile accepts more ⟨others ++ rest, pos + 1⟩ =
          .ok (others, ⟨rest, pos + 1 + others.length⟩) :=
        inductionHypothesis later (Nat.le_of_succ_le_succ le) (ends.imp_left Nat.succ.inj)
      refine takeWhile_step (peek?_plain rfl here) accepted
        (drop_one rfl (sound_append othersSound sound)) (taken.trans ?_)
      rw [List.length_cons, Nat.add_assoc, Nat.add_comm 1]

end Input

/-! ## Bounds in digits -/

/-- A text in front of which a repeat ends. -/
def Calm (post : List Char) : Prop :=
  post ≠ ['\\'] ∧ ∀ c, post.head? = some c → c ≠ '?' ∧ c ≠ '+'

theorem Quiet.calm
    {post : List Char}
    (quiet : Quiet post) :
    Calm post := by
  refine ⟨quiet.notEscape, fun c first => ?_⟩
  obtain ⟨rest, rfl⟩ := List.head?_eq_some_iff.mp first
  have stops := quiet.starts c rest rfl
  refine ⟨?_, ?_⟩
  · intro same
    rw [same] at stops
    cases stops
  · intro same
    rw [same] at stops
    cases stops

theorem bound_natCast (n : Nat) :
    bound n = Nat.toDigits 10 n := by
  have shown : bound n = (Nat.repr n).toList := rfl
  rw [shown, Nat.repr_eq_ofList_toDigits, String.toList_ofList]

theorem bound_ne_nil (n : Nat) :
    bound n ≠ [] := by
  rw [bound_natCast]
  exact Nat.toDigits_ne_nil

theorem isDecimal_of_mem_bound
    {n : Nat}
    {c : Char}
    (member : c ∈ bound n) :
    isDecimal c = true := by
  rw [bound_natCast] at member
  have digit := Nat.isDigit_of_mem_toDigits (by decide) (by decide) member
  simp only [Char.isDigit, Bool.and_eq_true, decide_eq_true_eq] at digit
  simp only [isDecimal, Bool.and_eq_true, decide_eq_true_eq, Char.le_def]
  exact digit

theorem number_bound (n : Nat) :
    number 10 (bound n) = n := by
  have general : ∀ (digits : List Char) (value : Nat), (∀ c ∈ digits, isDecimal c = true) →
      digits.foldl (fun value c => value * 10 + digitOf c) value =
        Nat.ofDigitChars 10 digits value := by
    intro digits
    induction digits with
    | nil => exact fun _ _ => rfl
    | cons c rest inductionHypothesis =>
        intro value decimal
        obtain ⟨here, later⟩ := List.forall_mem_cons.mp decimal
        have digit : digitOf c = c.toNat - '0'.toNat := if_pos here
        rw [List.foldl_cons, inductionHypothesis _ later, digit, Nat.mul_comm]
        rfl
  rw [number, general _ _ fun c member => isDecimal_of_mem_bound member, bound_natCast]
  exact Nat.ofDigitChars_ten_toDigits

theorem boundOf_bound
    {n : Nat}
    (small : n < endless) :
    boundOf (bound n) = .ok n := by
  have short : (bound n).length ≤ digitLimit := by
    rw [bound_natCast]
    refine Nat.le_trans ?_ (show 10 ≤ digitLimit by decide)
    exact (Nat.length_toDigits_le_iff (by decide) (by decide)).mpr (Nat.lt_trans small (by decide))
  rw [boundOf, if_neg (Nat.not_lt.mpr short), number_bound, if_neg (Nat.not_le.mpr small)]

section Bounds

variable {low high : Nat} {post : List Char}

/-- The digits of a bound are taken up to a character that is no digit. -/
theorem takeWhile_bound
    {n count pos : Nat}
    {c : Char}
    {rest : List Char}
    (stops : isDecimal c = false)
    (plain : c ≠ '\\')
    (le : (bound n).length ≤ count) :
    Input.takeWhile isDecimal count ⟨bound n ++ c :: rest, pos⟩ =
      .ok (bound n, ⟨c :: rest, pos + (bound n).length⟩) := by
  refine Input.takeWhile_front ?_ (fun same => plain (List.cons.inj same).1) le (Or.inr ?_)
  · intro d member
    have decimal := isDecimal_of_mem_bound member
    refine ⟨decimal, ?_⟩
    intro same
    rw [same] at decimal
    cases decimal
  · intro d first
    cases first
    exact stops

/-- The bounds of a repeat in braces, as they are written. -/
theorem bracedBounds_bound
    (ordered : low ≤ high)
    (small : high < endless)
    (sound : post ≠ ['\\'])
    (pos : Nat) :
    ∃ last, Reading.bracedBounds ⟨bound low ++ ',' :: (bound high ++ '\x7d' :: post), pos⟩ =
      .ok (some (⟨low, high⟩, ⟨post, last⟩)) := by
  rw [bracedBounds_eq]
  generalize counted : (bound low ++ ',' :: (bound high ++ '\x7d' :: post)).length = count
  rw [List.length_append, List.length_cons, List.length_append] at counted
  have lowTaken : Input.takeWhile isDecimal count
      ⟨bound low ++ ',' :: (bound high ++ '\x7d' :: post), pos⟩ = _ :=
    takeWhile_bound rfl (by decide) (by omega)
  have comma : Input.take? ⟨',' :: (bound high ++ '\x7d' :: post), pos + (bound low).length⟩ ',' =
      .ok (some ⟨bound high ++ '\x7d' :: post, pos + (bound low).length + 1⟩) :=
    Input.take?_plain rfl (by decide) (ne_backslash_of_append (by simp))
  have highTaken : Input.takeWhile isDecimal count
      ⟨bound high ++ '\x7d' :: post, pos + (bound low).length + 1⟩ = _ :=
    takeWhile_bound rfl (by decide) (by omega)
  have upper : upperBound count (bound low)
      ⟨',' :: (bound high ++ '\x7d' :: post), pos + (bound low).length⟩ = _ :=
    bind_eq_ok.mpr ⟨_, comma, highTaken⟩
  have brace : Input.take?
      ⟨'\x7d' :: post, pos + (bound low).length + 1 + (bound high).length⟩ '\x7d' = _ :=
    Input.take?_plain rfl (by decide) sound
  have some : (bound high).isEmpty = false := List.isEmpty_eq_false_iff.mpr (bound_ne_nil high)
  have highBound : upperNumber (bound high) = .ok high := by
    rw [upperNumber, some]
    exact boundOf_bound small
  have closed : closeBounds pos (bound low) (bound high)
      ⟨'\x7d' :: post, pos + (bound low).length + 1 + (bound high).length⟩ =
      .ok (.some (⟨low, high⟩, ⟨post, pos + (bound low).length + 1 + (bound high).length + 1⟩)) := by
    refine bind_eq_ok.mpr ⟨_, brace, bind_eq_ok.mpr ⟨low, boundOf_bound (by omega), ?_⟩⟩
    refine bind_eq_ok.mpr ⟨high, highBound, ?_⟩
    exact if_neg (Nat.not_lt.mpr ordered)
  exact ⟨_, bind_eq_ok.mpr ⟨_, lowTaken, bind_eq_ok.mpr ⟨_, upper, closed⟩⟩⟩

/-- The sign of a reluctant repeat, and of one that is not. -/
def reluctance (reluctant : Bool) : List Char :=
  if reluctant then ['?'] else []

/-- How a repeat with such a sign is tried. -/
def greedOf (reluctant : Bool) : Greed :=
  if reluctant then .lazy else .greedy

theorem reluctance_ne_backslash (reluctant : Bool) :
    reluctance reluctant ≠ ['\\'] := by
  cases reluctant <;> decide

/-- In front of a calm text a repeat is greedy or, with its sign, reluctant. -/
theorem lexBounds_calm
    (calm : Calm post)
    (reluctant : Bool)
    (low high pos : Nat) :
    ∃ last, lexBounds low high ⟨reluctance reluctant ++ post, pos⟩ =
      .ok (.repeating low high (greedOf reluctant), ⟨post, last⟩) := by
  cases reluctant with
  | false =>
      have noMark : Input.take? ⟨post, pos⟩ '?' = .ok none :=
        Input.take?_absent fun first => (calm.2 _ first).1 rfl
      have noPlus : Input.take? ⟨post, pos⟩ '+' = .ok none :=
        Input.take?_absent fun first => (calm.2 _ first).2 rfl
      have greedy : Reading.readGreed ⟨post, pos⟩ = .ok (.greedy, ⟨post, pos⟩) :=
        bind_eq_ok.mpr ⟨none, noMark, bind_eq_ok.mpr ⟨none, noPlus, rfl⟩⟩
      exact ⟨pos, bind_eq_ok.mpr ⟨_, greedy, rfl⟩⟩
  | true =>
      have mark : Input.take? ⟨'?' :: post, pos⟩ '?' = .ok (some ⟨post, pos + 1⟩) :=
        Input.take?_plain rfl (by decide) calm.1
      have lazy : Reading.readGreed ⟨'?' :: post, pos⟩ = .ok (.lazy, ⟨post, pos + 1⟩) :=
        bind_eq_ok.mpr ⟨_, mark, rfl⟩
      exact ⟨pos + 1, bind_eq_ok.mpr ⟨_, lazy, rfl⟩⟩

/-- A repeat with bounds in braces. -/
theorem lexRepeat_bound
    (ordered : low ≤ high)
    (small : high < endless)
    (calm : Calm post)
    (reluctant : Bool)
    (flags : Flags)
    (pos : Nat) :
    ∃ last, lexRepeat flags '\x7b'
        ⟨bound low ++ ',' :: (bound high ++ '\x7d' :: (reluctance reluctant ++ post)), pos⟩ =
      .ok (.repeating low high (greedOf reluctant), ⟨post, last⟩) := by
  obtain ⟨last, bounds⟩ := bracedBounds_bound ordered small
    (sound_append (reluctance_ne_backslash reluctant) calm.1) pos
  obtain ⟨final, greedy⟩ := lexBounds_calm calm reluctant low high last
  have opens : Reading.closesAtOnce
      ⟨bound low ++ ',' :: (bound high ++ '\x7d' :: (reluctance reluctant ++ post)), pos⟩ =
      false := by
    refine decide_eq_false fun peeked => ?_
    have first := Input.rest_of_peek?_plain peeked
    obtain ⟨d, digits, spelled⟩ := List.exists_cons_of_ne_nil (bound_ne_nil low)
    have decimal : isDecimal d = true :=
      isDecimal_of_mem_bound (spelled ▸ List.mem_cons_self)
    rw [spelled, List.cons_append, List.head?_cons, Option.some.injEq] at first
    rw [first] at decimal
    cases decimal
  refine ⟨final, ?_⟩
  unfold lexRepeat
  rw [if_neg (by decide), if_neg (by decide), if_neg (by decide), opens]
  exact bind_eq_ok.mpr ⟨_, bounds, greedy⟩

end Bounds

/-! ## Character classes -/

/-- A text is read as one member of a class, in front of what does not make a range of it. -/
structure Names (text : List Char) (member : Member) : Prop where
  nonempty : text ≠ []
  sound : text ≠ ['\\']
  reads : ∀ start steps found rest pos, rest.head? ≠ some '-' → rest ≠ ['\\'] →
    classBodyFrom start (steps + 1) found ⟨text ++ rest, pos⟩ =
      classBodyFrom start steps (member :: found) ⟨rest, pos + text.length⟩

theorem classBodyFrom_entry
    {start steps : Nat}
    {found : List Member}
    {input inside behind : Input}
    {token : Token}
    {member : Member}
    (next : input.next? = .ok (some (token, inside)))
    (more : token ≠ .plain ']')
    (entry : classEntry token inside = .ok (member, behind))
    (noRange : behind.rest.head? ≠ some '-') :
    classBodyFrom start (steps + 1) found input =
      classBodyFrom start steps (member :: found) behind := by
  rw [classBodyFrom, next]
  simp only [bind, Except.bind, more, decide_false, Bool.false_and, Bool.false_eq_true, if_false,
    entry, Input.take?_absent noRange]

theorem names_plain
    {c : Char}
    (plain : c ≠ '\\')
    (inside : c ≠ ']') :
    Names [c] (.point c.toNat) := by
  refine ⟨List.cons_ne_nil c [], fun same => plain (List.cons.inj same).1, ?_⟩
  intro start steps found rest pos noRange sound
  exact classBodyFrom_entry (Input.next?_plain rfl plain sound)
    (fun same => inside (Token.plain.inj same)) rfl noRange

/-- A category by its letter. -/
theorem names_category
    {c : Char}
    {kind : Category}
    {negated : Bool}
    (letter : ∀ input, classEscape c input = .ok (.category kind negated, input)) :
    Names ['\\', c] (.category kind negated) := by
  refine ⟨by simp, by simp, ?_⟩
  intro start steps found rest pos noRange sound
  refine classBodyFrom_entry (next?_escaped sound pos) (by simp) ?_ noRange
  exact bind_eq_ok.mpr ⟨_, letter _, rfl⟩

/-- A code point in four digits of base sixteen. -/
theorem names_hex
    {digits : List Char}
    (four : digits.length = 4)
    (hex : digits.all isHex = true)
    (small : number 16 digits ≤ 0x10FFFF) :
    Names ('\\' :: 'u' :: digits) (.point (number 16 digits)) := by
  refine ⟨by simp, by simp, ?_⟩
  intro start steps found rest pos noRange sound
  have digitsSound : digits ≠ ['\\'] := by
    rintro rfl
    cases four
  have plain : ∀ c ∈ digits, isHex c = true ∧ c ≠ '\\' := by
    intro c member
    have digit := List.all_eq_true.mp hex c member
    refine ⟨digit, ?_⟩
    rintro rfl
    cases digit
  have taken : Input.takeWhile isHex 4 ⟨digits ++ rest, pos + 2⟩ = _ :=
    Input.takeWhile_front plain sound (Nat.le_of_eq four) (Or.inl four)
  have read : hexEscape 'u' 4 ⟨digits ++ rest, pos + 2⟩ =
      .ok (.point (number 16 digits), ⟨rest, pos + 2 + digits.length⟩) := by
    refine bind_eq_ok.mpr ⟨_, taken, ?_⟩
    dsimp only
    rw [if_neg (not_not_intro four), if_neg (Nat.not_lt.mpr small)]
  have entry : classEntry (.escaped 'u') ⟨digits ++ rest, pos + 2⟩ =
      .ok (.point (number 16 digits), ⟨rest, pos + 2 + digits.length⟩) :=
    bind_eq_ok.mpr ⟨_, read, rfl⟩
  rw [List.cons_append, List.cons_append,
    classBodyFrom_entry (next?_escaped (sound_append digitsSound sound) pos) (by simp) entry
      noRange, List.length_cons, List.length_cons]
  congr 2
  omega

theorem classBodyFrom_close
    {start steps pos : Nat}
    {found : List Member}
    {post : List Char}
    (some : found ≠ [])
    (sound : post ≠ ['\\']) :
    classBodyFrom start (steps + 1) found ⟨']' :: post, pos⟩ =
      .ok (found.reverse, ⟨post, pos + 1⟩) := by
  have next : Input.next? ⟨']' :: post, pos⟩ = .ok (.some (.plain ']', ⟨post, pos + 1⟩)) :=
    Input.next?_plain rfl (by decide) sound
  have more : found.isEmpty = false := List.isEmpty_eq_false_iff.mpr some
  rw [classBodyFrom, next]
  simp [more, bind, Except.bind]

/-- The text of units, each with the member that it is. -/
def unitText (units : List (List Char × Member)) : List Char :=
  units.flatMap Prod.fst

/-- Units one after the other are read as their members. -/
theorem classBodyFrom_units
    {units : List (List Char × Member)}
    (named : ∀ unit ∈ units, Names unit.1 unit.2)
    (noRange : ∀ unit ∈ units.tail, unit.1.head? ≠ some '-')
    {start more pos : Nat}
    {found : List Member}
    {rest : List Char}
    (noRangeBehind : rest.head? ≠ some '-')
    (sound : rest ≠ ['\\']) :
    classBodyFrom start (units.length + more) found ⟨unitText units ++ rest, pos⟩ =
      classBodyFrom start more ((units.map Prod.snd).reverse ++ found)
        ⟨rest, pos + (unitText units).length⟩ := by
  induction units generalizing pos found with
  | nil => simp [unitText]
  | cons unit others inductionHypothesis =>
      obtain ⟨here, later⟩ := List.forall_mem_cons.mp named
      have behind : (unitText others ++ rest).head? ≠ some '-' ∧
          unitText others ++ rest ≠ ['\\'] := by
        cases others with
        | nil => exact ⟨noRangeBehind, sound⟩
        | cons next last =>
            have names := named next (List.mem_cons_of_mem _ List.mem_cons_self)
            have text : unitText (next :: last) ++ rest = next.1 ++ (unitText last ++ rest) :=
              List.append_assoc _ _ _
            rw [text]
            refine ⟨?_, ?_⟩
            · rw [List.head?_append_of_ne_nil _ names.nonempty]
              exact noRange next List.mem_cons_self
            · intro same
              rcases List.append_eq_singleton_iff.mp same with ⟨none, -⟩ | ⟨backslash, -⟩
              · exact names.nonempty none
              · exact names.sound backslash
      have othersRange : ∀ other ∈ others.tail, other.1.head? ≠ some '-' :=
        fun other member => noRange other (List.mem_of_mem_tail member)
      have step := here.reads start (others.length + more) found (unitText others ++ rest) pos
        behind.1 behind.2
      have text : unitText (unit :: others) = unit.1 ++ unitText others := rfl
      rw [List.length_cons, Nat.add_right_comm, text, List.append_assoc, step,
        inductionHypothesis later othersRange, List.map_cons, List.reverse_cons, List.append_assoc,
        List.length_append, Nat.add_assoc]
      rfl

theorem length_le_unitText
    {units : List (List Char × Member)}
    (named : ∀ unit ∈ units, Names unit.1 unit.2) :
    units.length ≤ (unitText units).length := by
  induction units with
  | nil => exact Nat.le_refl 0
  | cons unit others inductionHypothesis =>
      obtain ⟨here, later⟩ := List.forall_mem_cons.mp named
      have some := List.length_pos_of_ne_nil here.nonempty
      have more := inductionHypothesis later
      have text : unitText (unit :: others) = unit.1 ++ unitText others := rfl
      rw [text, List.length_append, List.length_cons]
      omega

/-- A class is read as its members. -/
theorem lexClass_units
    {units : List (List Char × Member)}
    (nonempty : units ≠ [])
    (named : ∀ unit ∈ units, Names unit.1 unit.2)
    (noRange : ∀ unit ∈ units.tail, unit.1.head? ≠ some '-')
    (positive : (unitText units).head? ≠ some '^')
    {post : List Char}
    (sound : post ≠ ['\\'])
    (flags : Flags)
    (pos : Nat) :
    ∃ last, lexClass flags ⟨unitText units ++ ']' :: post, pos⟩ =
      .ok (.item (.ofClass flags false (units.map Prod.snd)), ⟨post, last⟩) := by
  have enough := length_le_unitText named
  obtain ⟨more, total⟩ : ∃ more, (unitText units ++ ']' :: post).length + 1 =
      units.length + (more + 1) := by
    refine ⟨(unitText units ++ ']' :: post).length - units.length, ?_⟩
    rw [List.length_append]
    omega
  have noCaret : (unitText units ++ ']' :: post).head? ≠ some '^' := by
    intro first
    rw [List.head?_append] at first
    cases start : (unitText units).head? with
    | none =>
        rw [start] at first
        cases first
    | some c =>
        rw [start] at first
        exact positive (start.trans first)
  have members : classBodyFrom (pos - 1) ((unitText units ++ ']' :: post).length + 1) []
      ⟨unitText units ++ ']' :: post, pos⟩ =
      .ok (units.map Prod.snd, ⟨post, pos + (unitText units).length + 1⟩) := by
    rw [total, classBodyFrom_units named noRange (by simp) (by simp), List.append_nil,
      classBodyFrom_close (by simpa using nonempty) sound, List.reverse_reverse]
  have body : classBody ⟨unitText units ++ ']' :: post, pos⟩ =
      .ok (false, units.map Prod.snd, ⟨post, pos + (unitText units).length + 1⟩) :=
    bind_eq_ok.mpr ⟨none, Input.take?_absent noCaret, bind_eq_ok.mpr ⟨_, members, rfl⟩⟩
  exact ⟨_, bind_eq_ok.mpr ⟨_, body, rfl⟩⟩

/-! ## What a piece adds wherever it stands -/

/-- A piece adds entries to the branch being read, in front of every calm text. -/
structure Grows (flags : Flags) (piece : List Char) (entries : List Entry) : Prop where
  sound : piece ≠ ['\\']
  reaches : ∀ {deep names reading post}, Ready deep flags names reading →
    reading.input.rest = piece ++ post → Calm post →
    ∃ pos groups, groups.Named names ∧
      Reading.Reaches reading
        (reading.goneOn post pos reading.level.branches
          (entries.reverse ++ reading.level.entries) groups)

/-- A piece adds one entry to the branch being read, whatever stands behind it. -/
structure Sets (flags : Flags) (piece : List Char) (entry : Entry) : Prop where
  sound : piece ≠ ['\\']
  reaches : ∀ {deep names reading post}, Ready deep flags names reading →
    reading.input.rest = piece ++ post → post ≠ ['\\'] →
    ∃ pos groups, groups.Named names ∧
      Reading.Reaches reading
        (reading.goneOn post pos reading.level.branches
          (entry :: reading.level.entries) groups)

theorem calm_cons
    {c : Char}
    (starts : c ≠ '\\' ∧ c ≠ '?' ∧ c ≠ '+')
    (rest : List Char) :
    Calm (c :: rest) := by
  refine ⟨fun same => starts.1 (List.cons.inj same).1, ?_⟩
  intro d first
  cases first
  exact starts.2

/-- A piece that is calm in front of what is calm. -/
def Settled (piece : List Char) : Prop :=
  ∀ post, Calm post → Calm (piece ++ post)

theorem settled_nil : Settled [] :=
  fun _ calm => calm

theorem settled_cons
    {c : Char}
    (starts : c ≠ '\\' ∧ c ≠ '?' ∧ c ≠ '+')
    (rest : List Char) :
    Settled (c :: rest) :=
  fun post _ => calm_cons starts (rest ++ post)

theorem Settled.append
    {first second : List Char}
    (one : Settled first)
    (other : Settled second) :
    Settled (first ++ second) := by
  intro post calm
  rw [List.append_assoc]
  exact one _ (other post calm)

section Pieces

variable {flags : Flags} {first second piece : List Char} {entries more : List Entry}
  {entry : Entry}

theorem Sets.grows
    (sets : Sets flags piece entry) :
    Grows flags piece [entry] :=
  ⟨sets.sound, fun ready starts calm => sets.reaches ready starts calm.1⟩

theorem Grows.adds
    (grows : Grows flags piece entries)
    (deep : Bool)
    (names : List (List Char × Nat)) :
    Adds deep flags names names piece entries :=
  ⟨grows.sound, fun _ _ ready starts quiet => grows.reaches ready starts quiet.calm⟩

theorem Grows.splits
    (grows : Grows flags piece entries)
    (deep : Bool)
    (names : List (List Char × Nat)) :
    Splits deep flags names names piece [entries.flatMap Entry.items] :=
  .of_adds (grows.adds deep names)

theorem grows_nil : Grows flags [] [] := by
  refine ⟨by simp, ?_⟩
  intro deep names reading post ready starts _
  refine ⟨reading.input.pos, reading.groups, ready.named, ?_⟩
  have same : reading.goneOn post reading.input.pos reading.level.branches
      reading.level.entries reading.groups = reading := by
    unfold Reading.goneOn
    rw [← List.nil_append post, ← starts]
  rw [List.reverse_nil, List.nil_append, same]
  exact .refl _

theorem Grows.append
    (one : Grows flags first entries)
    (other : Grows flags second more)
    (settled : Settled second) :
    Grows flags (first ++ second) (entries ++ more) := by
  refine ⟨sound_append one.sound other.sound, ?_⟩
  intro deep names reading post ready starts calm
  rw [List.append_assoc] at starts
  obtain ⟨pos, groups, named, reaches⟩ := one.reaches ready starts (settled post calm)
  obtain ⟨last, final, finalNamed, further⟩ :=
    other.reaches (ready.goneOn named _ pos _ _) rfl calm
  refine ⟨last, final, finalNamed, reaches.trans ?_⟩
  rw [List.reverse_append, List.append_assoc]
  exact further

/-- A piece in front of one that is only read in front of quiet texts. -/
theorem Grows.adds_append
    {deep : Bool}
    {names : List (List Char × Nat)}
    (one : Grows flags first entries)
    (other : Adds deep flags names names second more)
    (settled : Settled second) :
    Adds deep flags names names (first ++ second) (entries ++ more) := by
  refine ⟨sound_append one.sound other.sound, ?_⟩
  intro reading post ready starts quiet
  rw [List.append_assoc] at starts
  obtain ⟨pos, groups, named, reaches⟩ := one.reaches ready starts (settled post quiet.calm)
  obtain ⟨last, final, finalNamed, further⟩ :=
    other.reaches _ post (ready.goneOn named _ pos _ _) rfl quiet
  refine ⟨last, final, finalNamed, reaches.trans ?_⟩
  rw [List.reverse_append, List.append_assoc]
  exact further

/-- A piece that asks for an item. -/
theorem sets_item
    {c : Char}
    {rest : List Char}
    {item : Item}
    (plain : c ≠ '\\')
    (sound : rest ≠ ['\\'])
    (asks : ∀ post pos, post ≠ ['\\'] →
      ∃ last, lex flags (.plain c) ⟨rest ++ post, pos⟩ = .ok (.item item, ⟨post, last⟩)) :
    Sets flags (c :: rest) (.single item) := by
  refine ⟨fun same => plain (List.cons.inj same).1, ?_⟩
  intro deep names reading post ready starts soundPost
  have same : reading.flags = flags := ready.flags
  obtain ⟨last, asked⟩ := asks post (reading.input.pos + 1) soundPost
  rw [← same] at asked
  obtain ⟨next, stepped, acts⟩ :=
    Reading.step_acts (Input.drop_one starts (sound_append sound soundPost)) asked trivial
  have peeked := Input.peek?_plain starts plain
  cases acts
  exact ⟨last, reading.groups, ready.named, .step peeked stepped (.refl _)⟩

theorem lexPlain_terse
    (terse : flags.verbose = false)
    (c : Char)
    (input : Input) :
    lexPlain flags c input = lexSign flags c input := by
  unfold lexPlain
  rw [terse, Bool.false_and, Bool.false_and, if_neg Bool.false_ne_true, if_neg Bool.false_ne_true]

/-- The characters with a meaning of their own outside classes. -/
def specials : List Char :=
  ['\\', '(', ')', '[', '|', '.', '^', '$', '*', '+', '?', '\x7b']

/-- Whether a character stands for itself outside classes. -/
def isLiteral (c : Char) : Bool :=
  !specials.contains c

/-- A character without a meaning of its own stands for itself. -/
theorem lex_isLiteral
    {c : Char}
    (literal : isLiteral c = true)
    (terse : flags.verbose = false)
    (input : Input) :
    lex flags (.plain c) input = .ok (.item (.ofPoint flags false c.toNat), input) := by
  have other : ∀ sign, isLiteral sign = false → c ≠ sign := by
    rintro sign special rfl
    rw [literal] at special
    cases special
  have noRepeat : (c == '*' || c == '+' || c == '?' || c == '\x7b') = false := by
    simp [other '*' rfl, other '+' rfl, other '?' rfl, other '\x7b' rfl]
  unfold lex
  split
  · rename_i same
    exact absurd (Token.plain.inj same) (other _ rfl)
  · rename_i same
    exact absurd (Token.plain.inj same) (other _ rfl)
  · rename_i same
    cases same
  · rename_i d _ _ same
    obtain rfl := Token.plain.inj same
    rw [lexPlain_terse terse]
    unfold lexSign
    split
    case h_6 => rw [noRepeat, if_neg Bool.false_ne_true]
    all_goals exact absurd rfl (other _ rfl)

theorem sets_literal
    {c : Char}
    (literal : isLiteral c = true)
    (terse : flags.verbose = false) :
    Sets flags [c] (.single (.ofPoint flags false c.toNat)) := by
  have plain : c ≠ '\\' := by
    rintro rfl
    cases literal
  exact sets_item plain (by simp) fun post pos _ => ⟨pos, lex_isLiteral literal terse ⟨post, pos⟩⟩

/-- Whether a character is a letter from `A` to `Z` or from `a` to `z` or a decimal digit. -/
def isPlainWord (c : Char) : Bool :=
  isPlainLetter c || isDecimal c

theorem ne_of_isPlainWord
    {c sign : Char}
    (word : isPlainWord c = true)
    (other : isPlainWord sign = false) :
    c ≠ sign := by
  rintro rfl
  rw [word] at other
  cases other

theorem isLiteral_of_isPlainWord
    {c : Char}
    (word : isPlainWord c = true) :
    isLiteral c = true := by
  have noWord : specials.all (fun sign => !isPlainWord sign) = true := by decide
  unfold isLiteral
  rw [Bool.not_eq_true', List.contains_eq_mem, decide_eq_false_iff_not]
  intro special
  have other := List.all_eq_true.mp noWord c special
  rw [word] at other
  cases other

theorem sets_class
    {units : List (List Char × Member)}
    (nonempty : units ≠ [])
    (named : ∀ unit ∈ units, Names unit.1 unit.2)
    (noRange : ∀ unit ∈ units.tail, unit.1.head? ≠ some '-')
    (positive : (unitText units).head? ≠ some '^')
    (terse : flags.verbose = false) :
    Sets flags (anyOf (unitText units))
      (.single (.ofClass flags false (units.map Prod.snd))) := by
  refine sets_item (by decide) (ne_backslash_of_append (by simp)) fun post pos sound => ?_
  obtain ⟨last, read⟩ := lexClass_units nonempty named noRange positive sound flags pos
  have sign : lex flags (.plain '[') ⟨unitText units ++ [']'] ++ post, pos⟩ =
      lexPlain flags '[' ⟨unitText units ++ [']'] ++ post, pos⟩ := rfl
  refine ⟨last, sign.trans ?_⟩
  rw [lexPlain_terse terse, List.append_assoc]
  exact read

theorem sets_dot (terse : flags.verbose = false) :
    Sets flags ['.'] (.single (.dot flags)) := by
  refine sets_item (by decide) (by simp) fun post pos _ => ⟨pos, ?_⟩
  exact lexPlain_terse terse '.' ⟨post, pos⟩

/-- A group that captures nothing, around branches in which nothing is captured. -/
theorem sets_group
    {inner : Flags}
    {signs : List Char}
    {opener : Opener}
    {branches : List (List Item)}
    (opens : Opens flags signs opener inner)
    (splits : ∀ names, Splits true inner names names piece branches) :
    Sets flags (signs ++ piece ++ [')']) (groupEntry opener inner branches) := by
  refine ⟨ne_backslash_of_append (by simp), ?_⟩
  intro deep names reading post ready starts sound
  exact (splits names).reaches_group opens ready starts sound

/-- A group that only holds a branch together. -/
theorem Grows.group
    (grows : Grows flags piece entries) :
    Sets flags (Pattern.group piece) (.bundle (entries.flatMap Entry.items)) :=
  sets_group .plain fun names => grows.splits true names

section Repeats

variable {body : Part} {low high : Nat} {greed : Greed}

/-- A sign and what goes with it ask for a repeat in front of every calm text. -/
structure AsksRepeat (flags : Flags) (sign : Char) (bounds : List Char) (low high : Nat)
    (greed : Greed) : Prop where
  plain : sign ≠ '\\'
  sound : bounds ≠ ['\\']
  asks : ∀ post pos, Calm post →
    ∃ last, lex flags (.plain sign) ⟨bounds ++ post, pos⟩ =
      .ok (.repeating low high greed, ⟨post, last⟩)

/-- A sign asks for a repeat, which is reluctant with a question mark behind it. -/
theorem asksRepeat_sign
    {sign : Char}
    (plain : sign ≠ '\\')
    (asks : ∀ input, lex flags (.plain sign) input = lexBounds low high input)
    (reluctant : Bool) :
    AsksRepeat flags sign (reluctance reluctant) low high (greedOf reluctant) := by
  refine ⟨plain, reluctance_ne_backslash reluctant, fun post pos calm => ?_⟩
  obtain ⟨last, greedy⟩ := lexBounds_calm calm reluctant low high pos
  exact ⟨last, (asks _).trans greedy⟩

/-- Bounds in braces ask for a repeat. -/
theorem asksRepeat_bounds
    (ordered : low ≤ high)
    (small : high < endless)
    (reluctant : Bool) :
    AsksRepeat flags '\x7b' (bound low ++ ',' :: (bound high ++ '\x7d' :: reluctance reluctant))
      low high (greedOf reluctant) := by
  refine ⟨by decide, ne_backslash_of_append (by simp), fun post pos calm => ?_⟩
  obtain ⟨last, asked⟩ := lexRepeat_bound ordered small calm reluctant flags pos
  rw [← lex_sign (Or.inr rfl)] at asked
  refine ⟨last, ?_⟩
  rw [List.append_assoc, List.cons_append, List.append_assoc]
  exact asked

/-- A piece that adds one entry, with a repeat behind it. -/
theorem Sets.repeated
    (sets : Sets flags piece entry)
    (repeatable : entry.repeatable 0 = .ok body)
    {sign : Char}
    {bounds : List Char}
    (asksRepeat : AsksRepeat flags sign bounds low high greed) :
    Grows flags (piece ++ sign :: bounds) [.single (.repeating flags greed low high body)] := by
  have signed : ∀ rest, sign :: rest ≠ ['\\'] :=
    fun rest same => asksRepeat.plain (List.cons.inj same).1
  refine ⟨sound_append sets.sound (signed bounds), ?_⟩
  intro deep names reading post ready begins calm
  have same : reading.flags = flags := ready.flags
  rw [List.append_assoc, List.cons_append] at begins
  obtain ⟨pos, groups, named, reaches⟩ := sets.reaches ready begins (signed _)
  obtain ⟨last, asked⟩ := asksRepeat.asks post (pos + 1) calm
  rw [← same] at asked
  have step := reaches_repeating (reading.goneOn (sign :: (bounds ++ post)) pos
      reading.level.branches (entry :: reading.level.entries) groups)
    asksRepeat.plain (sound_append asksRepeat.sound calm.1) rfl asked rfl repeatable
  rw [← same]
  exact ⟨last, groups, named, reaches.trans step⟩

/-- A repeat with bounds in braces. -/
theorem Sets.times
    (sets : Sets flags piece entry)
    (repeatable : entry.repeatable 0 = .ok body)
    (ordered : low ≤ high)
    (small : high < endless)
    (reluctant : Bool) :
    Grows flags (Pattern.times piece low high ++ reluctance reluctant)
      [.single (.repeating flags (greedOf reluctant) low high body)] := by
  have spelled : Pattern.times piece low high ++ reluctance reluctant =
      piece ++ '\x7b' :: (bound low ++ ',' :: (bound high ++ '\x7d' :: reluctance reluctant)) := by
    simp [Pattern.times]
  rw [spelled]
  exact sets.repeated repeatable (asksRepeat_bounds ordered small reluctant)

/-- A repeat without an upper bound. -/
theorem Sets.star
    (sets : Sets flags piece entry)
    (repeatable : entry.repeatable 0 = .ok body)
    (terse : flags.verbose = false) :
    Grows flags (piece ++ ['*']) [.single (.repeating flags .greedy 0 endless body)] := by
  have asks : ∀ input, lex flags (.plain '*') input = lexBounds 0 endless input :=
    fun input => lexPlain_terse terse '*' input
  exact sets.repeated repeatable (asksRepeat_sign (by decide) asks false)

end Repeats

end Pieces

/-! ## What a piece means -/

/-- A piece is read as items that mean a language. -/
def Denotes (flags : Flags) (piece : List Char) (language : Language Char) : Prop :=
  ∃ entries, Grows flags piece entries ∧ Means (entries.flatMap Entry.items) language

/-- A piece is read as one entry that means a language and may be repeated. -/
def DenotesOnce (flags : Flags) (piece : List Char) (language : Language Char) : Prop :=
  ∃ entry, Sets flags piece entry ∧ Means entry.items language ∧
    entry.repeatable 0 = .ok (.ofItems entry.items)

section Denoting

variable {flags : Flags} {first second piece : List Char} {one other language : Language Char}

theorem denotes_nil : Denotes flags [] 1 :=
  ⟨[], grows_nil, .nil⟩

theorem Denotes.append
    (before : Denotes flags first one)
    (behind : Denotes flags second other)
    (settled : Settled second) :
    Denotes flags (first ++ second) (one * other) := by
  obtain ⟨entries, grows, means⟩ := before
  obtain ⟨more, growsMore, meansMore⟩ := behind
  refine ⟨entries ++ more, grows.append growsMore settled, ?_⟩
  rw [List.flatMap_append]
  exact means.append meansMore

theorem DenotesOnce.denotes
    (denotes : DenotesOnce flags piece language) :
    Denotes flags piece language := by
  obtain ⟨entry, sets, means, -⟩ := denotes
  refine ⟨[entry], sets.grows, ?_⟩
  rw [List.flatMap_singleton]
  exact means

theorem denotes_letter
    {c : Char}
    (word : isPlainWord c = true)
    (terse : flags.verbose = false) :
    Denotes flags [c] (letters fun d => (CharTest.ofPoint flags false c.toNat).passes d = true) :=
  ⟨_, (sets_literal (isLiteral_of_isPlainWord word) terse).grows, .single rfl rfl⟩

theorem denotesOnce_class
    {units : List (List Char × Member)}
    {members : List Member}
    (nonempty : units ≠ [])
    (named : ∀ unit ∈ units, Names unit.1 unit.2)
    (noRange : ∀ unit ∈ units.tail, unit.1.head? ≠ some '-')
    (positive : (unitText units).head? ≠ some '^')
    (terse : flags.verbose = false)
    (is : Item.ofClass flags false (units.map Prod.snd) = .ofMembers flags false members) :
    DenotesOnce flags (anyOf (unitText units))
      (letters fun c => (CharTest.ofMembers flags false members).passes c = true) := by
  have sets := sets_class nonempty named noRange positive terse
  rw [is] at sets
  exact ⟨_, sets, .single rfl rfl, rfl⟩

/-- A group that only holds a branch together. -/
theorem Denotes.group
    (denotes : Denotes flags piece language) :
    DenotesOnce flags (Pattern.group piece) language := by
  obtain ⟨entries, grows, means⟩ := denotes
  exact ⟨_, grows.group, means, rfl⟩

/-- A repeat with bounds in braces. -/
theorem DenotesOnce.times
    (denotes : DenotesOnce flags piece language)
    (mild : flags.template = false)
    {low high : Nat}
    (ordered : low ≤ high)
    (small : high < endless) :
    Denotes flags (Pattern.times piece low high) (counted low (some high) language) := by
  obtain ⟨entry, sets, means, repeatable⟩ := denotes
  have repeated := means.repeating flags mild ordered
  rw [if_neg (Nat.ne_of_lt small)] at repeated
  have grows := sets.times repeatable ordered small false
  rw [reluctance, if_neg Bool.false_ne_true, List.append_nil] at grows
  exact ⟨_, grows, repeated⟩

/-- A dot with a star behind it stands for any text, if the dot stands for line feeds too. -/
theorem denotes_anything
    (mild : flags.template = false)
    (terse : flags.verbose = false)
    (dotAll : flags.dotAll = true) :
    Denotes flags ['.', '*'] ⊤ := by
  have test : CharTest.dot flags = .any := if_pos dotAll
  have once : Means [.dot flags] (letters fun _ => True) := by
    have single : Means [.dot flags] _ := .single rfl rfl
    simpa only [test, CharTest.passes] using single
  have all := once.repeating flags mild (Nat.zero_le endless)
  rw [if_pos rfl, counted_letters_top] at all
  exact ⟨_, (sets_dot terse).star rfl terse, all⟩

/-- An expression that denotes a language compiles to one that matches the words of it. -/
theorem Denotes.compile
    (denotes : Denotes flags piece language) :
    ∃ regex, Regex.compile flags piece = .ok regex ∧
      ∀ text, regex.matchesWhole text = true ↔ text.toList ∈ language := by
  obtain ⟨entries, grows, means⟩ := denotes
  have splits := grows.splits false []
  obtain ⟨regex, compiled, node, -, -⟩ := splits.compile ((late_ofItems _).mpr means.late)
  exact ⟨regex, compiled, means.matchesWhole_iff node⟩

end Denoting

end NoticeScan.Regex
