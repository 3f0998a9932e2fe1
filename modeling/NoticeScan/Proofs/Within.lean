import NoticeScan.Proofs.Pieces

/-!
# Reading no further than a text

What stands behind a text starts with a closing parenthesis, if the text stands in a group. The
readers that take no parenthesis, bracket or backslash stop there. So what they read of the text
in its group is what they read of it by itself.
-/

namespace NoticeScan.Regex

/-- Whether a character is no bracket, no parenthesis and no backslash. -/
def isInner (c : Char) : Bool :=
  !(['\\', '[', ']', '(', ')'].contains c)

/-- A text that is empty or starts with a closing parenthesis. -/
def Shut (post : List Char) : Prop :=
  ∀ c rest, post = c :: rest → c = ')'

theorem shut_nil : Shut [] :=
  fun _ _ same => by cases same

theorem shut_cons (rest : List Char) :
    Shut (')' :: rest) :=
  fun _ _ same => by
    cases same
    rfl

namespace Input

variable {input between behind last : Input} {post : List Char} {shift : Nat} {c : Char}
  {rest : List Char}

/-- From one input to another one, only inner characters have been taken. -/
def Takes (input behind : Input) : Prop :=
  ∃ taken, (∀ c ∈ taken, isInner c = true) ∧ input.rest = taken ++ behind.rest

/-- No single backslash is left over, however many inner characters are taken. -/
def Firm (input : Input) : Prop :=
  ∀ behind, input.Takes behind → behind.Sound

theorem Takes.refl (input : Input) :
    input.Takes input :=
  ⟨[], fun _ none => absurd none List.not_mem_nil, rfl⟩

theorem Takes.trans
    (takes : input.Takes between)
    (further : between.Takes behind) :
    input.Takes behind := by
  obtain ⟨taken, inner, split⟩ := takes
  obtain ⟨more, innerMore, splitMore⟩ := further
  refine ⟨taken ++ more, List.forall_mem_append.mpr ⟨inner, innerMore⟩, ?_⟩
  rw [split, splitMore, List.append_assoc]

theorem Takes.one
    (inner : isInner c = true)
    (starts : input.rest = c :: rest)
    (pos : Nat) :
    input.Takes ⟨rest, pos⟩ :=
  ⟨[c], List.forall_mem_singleton.mpr inner, starts⟩

theorem Takes.suffix
    (takes : input.Takes behind) :
    behind.rest <:+ input.rest := by
  obtain ⟨taken, -, split⟩ := takes
  exact ⟨taken, split.symm⟩

theorem Firm.later
    (firm : input.Firm)
    (takes : input.Takes between) :
    between.Firm :=
  fun _ further => firm _ (takes.trans further)

theorem peek?_inner
    (inner : isInner c = true) :
    input.peek? = some (.plain c) ↔ ∃ rest, input.rest = c :: rest := by
  have plain : c ≠ '\\' := by
    rintro rfl
    cases inner
  refine ⟨fun peeked => ?_, fun ⟨rest, starts⟩ => peek?_plain starts plain⟩
  unfold peek? at peeked
  split at peeked
  · cases peeked
  · cases peeked
  · rename_i starts
    cases peeked
    exact ⟨_, starts⟩

/-- A text in front of what is shut shows the same inner characters as by itself. -/
theorem peek?_shut
    (shut : Shut post)
    (inner : isInner c = true) :
    (input.onto post shift).peek? = some (.plain c) ↔ ∃ rest, input.rest = c :: rest := by
  rw [peek?_inner inner]
  refine ⟨fun ⟨rest, starts⟩ => ?_, fun ⟨rest, starts⟩ => ⟨rest ++ post, ?_⟩⟩
  · rcases List.append_eq_cons_iff.mp starts with ⟨-, behind⟩ | ⟨more, starts, -⟩
    · have closing := shut c rest behind
      subst closing
      cases inner
    · exact ⟨more, starts⟩
  · rw [onto, starts]
    rfl

theorem drop_one_onto
    (starts : input.rest = c :: rest)
    (dropped : (input.onto post shift).drop 1 = .ok last) :
    last = (⟨rest, input.pos + 1⟩ : Input).onto post shift := by
  rw [drop_eq dropped, onto, onto, starts, Nat.add_right_comm]
  rfl

theorem Firm.drop_one
    (firm : input.Firm)
    (inner : isInner c = true)
    (starts : input.rest = c :: rest) :
    input.drop 1 = .ok ⟨rest, input.pos + 1⟩ :=
  Input.drop_one starts (firm ⟨rest, input.pos + 1⟩ (.one inner starts _))

theorem take?_within
    (shut : Shut post)
    (inner : isInner c = true)
    (taken : (input.onto post shift).take? c = .ok (some last)) :
    ∃ behind, input.Takes behind ∧ last = behind.onto post shift ∧
      (input.Firm → input.take? c = .ok (some behind)) := by
  unfold take? at taken
  split at taken
  · rename_i peeked
    obtain ⟨rest, starts⟩ := (peek?_shut shut inner).mp peeked
    cases dropped : (input.onto post shift).drop 1 with
    | error error => simp [dropped] at taken
    | ok after =>
        simp only [dropped, Except.ok.injEq, Option.some.injEq] at taken
        subst taken
        refine ⟨⟨rest, input.pos + 1⟩, .one inner starts _, drop_one_onto starts dropped, ?_⟩
        intro firm
        unfold take?
        rw [if_pos ((peek?_inner inner).mpr ⟨rest, starts⟩), firm.drop_one inner starts]
  · cases taken

theorem onto_nil (input : Input) :
    input.onto [] 0 = input := by
  rw [onto, List.append_nil, Nat.add_zero]

theorem rest_of_take?
    (inner : isInner c = true)
    (taken : input.take? c = .ok (some behind)) :
    input.rest = c :: behind.rest := by
  unfold take? at taken
  split at taken
  · rename_i peeked
    obtain ⟨rest, starts⟩ := (peek?_inner inner).mp peeked
    cases dropped : input.drop 1 with
    | error error => simp [dropped] at taken
    | ok after =>
        simp only [dropped, Except.ok.injEq, Option.some.injEq] at taken
        subst taken
        rw [drop_eq dropped, starts]
        rfl
  · cases taken

theorem takes_of_take?
    (inner : isInner c = true)
    (taken : input.take? c = .ok (some behind)) :
    input.Takes behind :=
  .one inner (rest_of_take? inner taken) behind.pos

theorem rest_ne_of_take?
    (inner : isInner c = true)
    (taken : input.take? c = .ok none)
    (rest : List Char) :
    input.rest ≠ c :: rest := by
  intro starts
  unfold take? at taken
  rw [if_pos ((peek?_inner inner).mpr ⟨rest, starts⟩)] at taken
  cases dropped : input.drop 1 with
  | error error => simp [dropped] at taken
  | ok after => simp [dropped] at taken

theorem take?_within_none
    (shut : Shut post)
    (inner : isInner c = true)
    (taken : (input.onto post shift).take? c = .ok none) :
    input.take? c = .ok none := by
  unfold take? at taken ⊢
  split at taken
  · cases dropped : (input.onto post shift).drop 1 with
    | error error => simp [dropped] at taken
    | ok after => simp [dropped] at taken
  · rename_i other
    refine if_neg fun peeked => other ?_
    exact (peek?_shut shut inner).mpr ((peek?_inner inner).mp peeked)

theorem next?_within
    (shut : Shut post)
    (inner : isInner c = true)
    (taken : (input.onto post shift).next? = .ok (some (.plain c, last))) :
    ∃ behind, input.Takes behind ∧ last = behind.onto post shift ∧
      (input.Firm → input.next? = .ok (some (.plain c, behind))) := by
  unfold next? at taken
  split at taken
  · cases taken
  · rename_i token peeked
    cases dropped : (input.onto post shift).drop token.width with
    | error error => simp [dropped] at taken
    | ok after =>
        simp only [dropped, Except.ok.injEq, Option.some.injEq, Prod.mk.injEq] at taken
        obtain ⟨rfl, rfl⟩ := taken
        obtain ⟨rest, starts⟩ := (peek?_shut shut inner).mp peeked
        refine ⟨⟨rest, input.pos + 1⟩, .one inner starts _, drop_one_onto starts dropped, ?_⟩
        intro firm
        unfold next?
        rw [(peek?_inner inner).mpr ⟨rest, starts⟩]
        dsimp only [Token.width]
        rw [firm.drop_one inner starts]

end Input

/-! ## Readers of inner characters -/

/-- A reader takes inner characters only, and reads the same of a text by itself as of the text
with something behind it. -/
def Within (post : List Char) (shift : Nat) {α : Type} (read : Input → Except Error (α × Input)) :
    Prop :=
  ∀ input value last, read (input.onto post shift) = .ok (value, last) →
    ∃ behind, input.Takes behind ∧ last = behind.onto post shift ∧
      (input.Firm → read input = .ok (value, behind))

section Readers

variable {post : List Char} {shift : Nat}

theorem within_ok
    {α : Type}
    (value : α) :
    Within post shift fun input => .ok (value, input) := by
  intro input value last read
  cases read
  exact ⟨input, .refl input, rfl, fun _ => rfl⟩

/-- What a reader takes of a text by itself. -/
theorem Within.takes
    {α : Type}
    {read : Input → Except Error (α × Input)}
    {value : α}
    {input behind : Input}
    (within : Within [] 0 read)
    (done : read input = .ok (value, behind)) :
    input.Takes behind := by
  rw [← input.onto_nil] at done
  obtain ⟨last, takes, same, -⟩ := within input value behind done
  rw [Input.onto_nil] at same
  exact same ▸ takes

theorem Within.bind
    {α β : Type}
    {first : Input → Except Error (α × Input)}
    {second : α → Input → Except Error (β × Input)}
    (one : Within post shift first)
    (other : ∀ value, Within post shift (second value)) :
    Within post shift fun input => first input >>= fun (value, behind) => second value behind := by
  intro input value last read
  obtain ⟨⟨middle, there⟩, firstRead, secondRead⟩ := bind_eq_ok.mp read
  obtain ⟨between, takes, rfl, firstAlone⟩ := one input middle there firstRead
  obtain ⟨behind, further, rfl, secondAlone⟩ := other middle between value last secondRead
  refine ⟨behind, takes.trans further, rfl, fun firm => ?_⟩
  exact bind_eq_ok.mpr ⟨_, firstAlone firm, secondAlone (firm.later takes)⟩

theorem within_takeWhile
    (shut : Shut post)
    {accepts : Char → Bool}
    (inner : ∀ c, accepts c = true → isInner c = true)
    (count : Nat) :
    Within post shift fun input => input.takeWhile accepts count := by
  induction count with
  | zero => exact within_ok []
  | succ count inductionHypothesis =>
      intro input taken last read
      rcases takeWhile_cases read with
        ⟨c, there, rest, peeked, accepted, dropped, others, rfl⟩ | ⟨stops, rfl, rfl⟩
      · obtain ⟨more, starts⟩ := (Input.peek?_shut shut (inner c accepted)).mp peeked
        cases Input.drop_one_onto starts dropped
        obtain ⟨behind, takes, rfl, alone⟩ := inductionHypothesis _ _ _ others
        have first := Input.Takes.one (inner c accepted) starts (input.pos + 1)
        refine ⟨behind, first.trans takes, rfl, fun firm => ?_⟩
        exact takeWhile_step ((Input.peek?_inner (inner c accepted)).mpr ⟨more, starts⟩) accepted
          (firm.drop_one (inner c accepted) starts) (alone (firm.later first))
      · refine ⟨input, .refl input, rfl, fun _ => takeWhile_stop ?_ _⟩
        intro c peeked
        by_contra accepted
        have accepted := Bool.eq_true_of_not_eq_false accepted
        have stopped := stops c ((Input.peek?_shut shut (inner c accepted)).mpr
          ((Input.peek?_inner (inner c accepted)).mp peeked))
        rw [stopped] at accepted
        cases accepted

/-- Bounds beyond the length of the text make no difference. -/
theorem takeWhile_enough
    {accepts : Char → Bool}
    {count more : Nat}
    {input : Input}
    (enough : input.rest.length ≤ count)
    (le : count ≤ more) :
    input.takeWhile accepts more = input.takeWhile accepts count := by
  induction count generalizing input more with
  | zero =>
      apply takeWhile_stop
      intro c peeked
      have longer := Input.width_le_of_peek? peeked
      simp only [Token.width] at longer
      omega
  | succ count inductionHypothesis =>
      obtain ⟨more, rfl⟩ : ∃ k, more = k + 1 := ⟨more - 1, by omega⟩
      unfold Input.takeWhile
      split
      · rename_i c peeked
        have wide := Input.width_le_of_peek? peeked
        simp only [Token.width] at wide
        split
        · cases dropped : input.drop 1 with
          | error error => rfl
          | ok between =>
              have shorter : between.rest.length ≤ count := by
                rw [Input.drop_eq dropped, List.length_drop]
                omega
              dsimp only
              rw [inductionHypothesis shorter (Nat.le_of_succ_le_succ le)]
        · rfl
      · rfl

/-! ### Escapes -/

theorem isInner_of_isHex
    {c : Char}
    (digit : isHex c = true) :
    isInner c = true := by
  by_contra outer
  rw [isInner, Bool.not_eq_true', Bool.not_eq_false, List.contains_iff_mem] at outer
  simp only [List.mem_cons, List.not_mem_nil, or_false] at outer
  rcases outer with rfl | rfl | rfl | rfl | rfl <;> cases digit

theorem isInner_of_isDecimal
    {c : Char}
    (digit : isDecimal c = true) :
    isInner c = true :=
  isInner_of_isHex (by rw [isHex, digit]; rfl)

theorem isInner_of_isOctal
    {c : Char}
    (digit : isOctal c = true) :
    isInner c = true := by
  apply isInner_of_isDecimal
  simp only [isOctal, isDecimal, Bool.and_eq_true, decide_eq_true_eq] at digit ⊢
  exact ⟨digit.1, Char.le_trans digit.2 (by decide)⟩

theorem within_hexEscape
    (shut : Shut post)
    (letter : Char)
    (width : Nat) :
    Within post shift (hexEscape letter width) := by
  intro input value last read
  unfold hexEscape at read ⊢
  obtain ⟨⟨digits, there⟩, taken, rest⟩ := bind_eq_ok.mp read
  obtain ⟨behind, takes, rfl, alone⟩ :=
    within_takeWhile shut (fun _ => isInner_of_isHex) width _ _ _ taken
  dsimp only at rest
  split at rest
  · cases rest
  · rename_i full
    split at rest
    · cases rest
    · rename_i small
      cases rest
      refine ⟨behind, takes, rfl, fun firm => bind_eq_ok.mpr ⟨_, alone firm, ?_⟩⟩
      dsimp only
      rw [if_neg full, if_neg small]

theorem within_namedEscape :
    Within post shift namedEscape := by
  intro input value last read
  unfold namedEscape at read
  obtain ⟨taken, _, rest⟩ := bind_eq_ok.mp read
  cases taken with
  | none => cases rest
  | some inside =>
      obtain ⟨_, _, refused⟩ := bind_eq_ok.mp rest
      cases refused

theorem within_octalEscape
    (digits : List Char) :
    Within post shift (octalEscape digits) := by
  intro input value last read
  unfold octalEscape at read ⊢
  split at read
  · cases read
  · rename_i small
    cases read
    exact ⟨input, .refl input, rfl, fun _ => if_neg small⟩

theorem within_selfEscape
    (c : Char) :
    Within post shift (selfEscape c) := by
  intro input value last read
  unfold selfEscape at read ⊢
  split at read
  · cases read
  · rename_i plain
    cases read
    exact ⟨input, .refl input, rfl, fun _ => if_neg plain⟩

theorem within_numberEscape
    (shut : Shut post)
    (c : Char) :
    Within post shift (numberEscape c) := by
  intro input value last read
  unfold numberEscape at read ⊢
  obtain ⟨⟨second, there⟩, taken, rest⟩ := bind_eq_ok.mp read
  obtain ⟨between, takes, rfl, alone⟩ :=
    within_takeWhile shut (fun _ => isInner_of_isDecimal) 1 _ _ _ taken
  cases second with
  | nil =>
      cases rest
      exact ⟨between, takes, rfl, fun firm => bind_eq_ok.mpr ⟨_, alone firm, rfl⟩⟩
  | cons d others =>
      dsimp only at rest
      split at rest
      · rename_i octal
        obtain ⟨⟨third, after⟩, takenThird, done⟩ := bind_eq_ok.mp rest
        obtain ⟨behind, further, rfl, aloneThird⟩ :=
          within_takeWhile shut (fun _ => isInner_of_isOctal) 1 _ _ _ takenThird
        cases third with
        | nil =>
            cases done
            refine ⟨between, takes, rfl, fun firm => bind_eq_ok.mpr ⟨_, alone firm, ?_⟩⟩
            dsimp only
            rw [if_pos octal]
            exact bind_eq_ok.mpr ⟨_, aloneThird (firm.later takes), rfl⟩
        | cons e more =>
            obtain ⟨final, none, rfl, aloneDone⟩ := within_octalEscape _ _ _ _ done
            refine ⟨final, (takes.trans further).trans none, rfl,
              fun firm => bind_eq_ok.mpr ⟨_, alone firm, ?_⟩⟩
            dsimp only
            rw [if_pos octal]
            have firmBetween := firm.later takes
            exact bind_eq_ok.mpr ⟨_, aloneThird firmBetween, aloneDone (firmBetween.later further)⟩
      · rename_i decimal
        cases rest
        refine ⟨between, takes, rfl, fun firm => bind_eq_ok.mpr ⟨_, alone firm, ?_⟩⟩
        dsimp only
        rw [if_neg decimal]

theorem within_outerEscape
    (shut : Shut post)
    (c : Char) :
    Within post shift (outerEscape c) := by
  unfold outerEscape
  split
  · exact within_ok _
  · split
    · exact within_ok _
    · exact within_ok _
    · exact within_hexEscape shut c _
    · split
      · exact within_namedEscape
      · split
        · exact (within_takeWhile shut (fun _ => isInner_of_isOctal) 2).bind
            fun more => within_octalEscape (c :: more)
        · split
          · exact within_numberEscape shut c
          · exact within_selfEscape c

theorem within_classEscape
    (shut : Shut post)
    (c : Char) :
    Within post shift (classEscape c) := by
  unfold classEscape
  split
  · exact within_ok _
  · exact within_ok _
  · exact within_hexEscape shut c _
  · split
    · exact within_namedEscape
    · split
      · exact (within_takeWhile shut (fun _ => isInner_of_isOctal) 2).bind
          fun more => within_octalEscape (c :: more)
      · exact within_selfEscape c

theorem within_lexEscape
    (shut : Shut post)
    (flags : Flags)
    (c : Char) :
    Within post shift (lexEscape flags c) := by
  intro input action last read
  unfold lexEscape at read ⊢
  obtain ⟨⟨escape, there⟩, escaped, rest⟩ := bind_eq_ok.mp read
  obtain ⟨behind, takes, rfl, alone⟩ := within_outerEscape shut c _ _ _ escaped
  cases escape with
  | group index =>
      cases rest
      refine ⟨behind, takes, rfl, fun firm => bind_eq_ok.mpr ⟨_, alone firm, ?_⟩⟩
      simp only [Input.onto, Nat.add_sub_add_right]
  | _ =>
      cases rest
      exact ⟨behind, takes, rfl, fun firm => bind_eq_ok.mpr ⟨_, alone firm, rfl⟩⟩

theorem within_classEntry
    (shut : Shut post)
    (token : Token) :
    Within post shift (classEntry token) := by
  intro input member last read
  unfold classEntry at read ⊢
  cases token with
  | plain c =>
      cases read
      exact ⟨input, .refl input, rfl, fun _ => rfl⟩
  | escaped c =>
      obtain ⟨⟨escape, there⟩, escaped, rest⟩ := bind_eq_ok.mp read
      obtain ⟨behind, takes, rfl, alone⟩ := within_classEscape shut c _ _ _ escaped
      cases escape with
      | point x =>
          cases rest
          exact ⟨behind, takes, rfl, fun firm => bind_eq_ok.mpr ⟨_, alone firm, rfl⟩⟩
      | category kind negated =>
          cases rest
          exact ⟨behind, takes, rfl, fun firm => bind_eq_ok.mpr ⟨_, alone firm, rfl⟩⟩
      | anchor letter => cases rest
      | group index => cases rest

/-! ### Repeats -/

theorem within_readGreed
    (shut : Shut post) :
    Within post shift Reading.readGreed := by
  intro input greed last read
  unfold Reading.readGreed at read ⊢
  obtain ⟨taken, mark, rest⟩ := bind_eq_ok.mp read
  cases taken with
  | some there =>
      cases rest
      obtain ⟨behind, takes, rfl, alone⟩ := Input.take?_within shut rfl mark
      exact ⟨behind, takes, rfl, fun firm => bind_eq_ok.mpr ⟨_, alone firm, rfl⟩⟩
  | none =>
      have noMark := Input.take?_within_none shut rfl mark
      obtain ⟨taken, plus, rest⟩ := bind_eq_ok.mp rest
      cases taken with
      | some there =>
          cases rest
          obtain ⟨behind, takes, rfl, alone⟩ := Input.take?_within shut rfl plus
          refine ⟨behind, takes, rfl, fun firm => bind_eq_ok.mpr ⟨none, noMark, ?_⟩⟩
          exact bind_eq_ok.mpr ⟨_, alone firm, rfl⟩
      | none =>
          cases rest
          have noPlus := Input.take?_within_none shut rfl plus
          refine ⟨input, .refl input, rfl, fun _ => bind_eq_ok.mpr ⟨none, noMark, ?_⟩⟩
          exact bind_eq_ok.mpr ⟨none, noPlus, rfl⟩

theorem within_lexBounds
    (shut : Shut post)
    (low high : Nat) :
    Within post shift (lexBounds low high) := by
  unfold lexBounds
  exact (within_readGreed shut).bind fun greed => within_ok (Action.repeating low high greed)

theorem within_upperBound
    (shut : Shut post)
    (count : Nat)
    (low : List Char) :
    Within post shift (upperBound count low) := by
  intro input high last read
  unfold upperBound at read ⊢
  obtain ⟨comma, taken, rest⟩ := bind_eq_ok.mp read
  cases comma with
  | none =>
      cases rest
      have noComma := Input.take?_within_none shut rfl taken
      exact ⟨input, .refl input, rfl, fun _ => bind_eq_ok.mpr ⟨none, noComma, rfl⟩⟩
  | some there =>
      obtain ⟨between, takes, rfl, alone⟩ := Input.take?_within shut rfl taken
      obtain ⟨behind, further, rfl, digits⟩ :=
        within_takeWhile shut (fun _ => isInner_of_isDecimal) count _ _ _ rest
      refine ⟨behind, takes.trans further, rfl, fun firm => ?_⟩
      exact bind_eq_ok.mpr ⟨_, alone firm, digits (firm.later takes)⟩

theorem upperBound_enough
    {count more : Nat}
    {low : List Char}
    {input : Input}
    (enough : input.rest.length ≤ count)
    (le : count ≤ more) :
    upperBound more low input = upperBound count low input := by
  unfold upperBound
  cases taken : input.take? ',' with
  | error error => rfl
  | ok comma =>
      cases comma with
      | none => rfl
      | some inside =>
          have short := Input.length_take? taken
          exact takeWhile_enough (by omega) le

theorem within_closeBounds
    (shut : Shut post)
    {mark : Nat}
    (otherMark : Nat)
    {low high : List Char}
    {input : Input}
    {result : Option (Reading.Bounds × Input)}
    (read : closeBounds mark low high (input.onto post shift) = .ok result) :
    ∃ found : Option (Reading.Bounds × Input),
      result = found.map (fun (bounds, behind) => (bounds, behind.onto post shift)) ∧
        (∀ bounds behind, found = some (bounds, behind) → input.Takes behind) ∧
        (input.Firm → closeBounds otherMark low high input = .ok found) := by
  unfold closeBounds at read ⊢
  obtain ⟨brace, taken, rest⟩ := bind_eq_ok.mp read
  cases brace with
  | none =>
      cases rest
      have noBrace := Input.take?_within_none shut rfl taken
      refine ⟨none, rfl, fun _ _ same => (nomatch same), fun _ => ?_⟩
      exact bind_eq_ok.mpr ⟨none, noBrace, rfl⟩
  | some there =>
      obtain ⟨behind, takes, rfl, alone⟩ := Input.take?_within shut rfl taken
      obtain ⟨lowBound, lowRead, rest⟩ := bind_eq_ok.mp rest
      obtain ⟨highBound, highRead, rest⟩ := bind_eq_ok.mp rest
      split at rest
      · cases rest
      · rename_i ordered
        cases rest
        refine ⟨some (⟨lowBound, highBound⟩, behind), rfl, fun _ _ same => ?_, fun firm => ?_⟩
        · cases same
          exact takes
        · refine bind_eq_ok.mpr ⟨_, alone firm, bind_eq_ok.mpr ⟨lowBound, lowRead, ?_⟩⟩
          exact bind_eq_ok.mpr ⟨highBound, highRead, if_neg ordered⟩

theorem within_bracedBounds
    (shut : Shut post)
    {input : Input}
    {result : Option (Reading.Bounds × Input)}
    (read : Reading.bracedBounds (input.onto post shift) = .ok result) :
    ∃ found : Option (Reading.Bounds × Input),
      result = found.map (fun (bounds, behind) => (bounds, behind.onto post shift)) ∧
        (∀ bounds behind, found = some (bounds, behind) → input.Takes behind) ∧
        (input.Firm → Reading.bracedBounds input = .ok found) := by
  have longer : input.rest.length ≤ (input.onto post shift).rest.length := by
    simp [Input.onto]
  rw [bracedBounds_eq] at read ⊢
  obtain ⟨⟨low, there⟩, lowRead, rest⟩ := bind_eq_ok.mp read
  obtain ⟨afterLow, takesLow, rfl, lowAlone⟩ :=
    within_takeWhile shut (fun _ => isInner_of_isDecimal) _ _ _ _ lowRead
  obtain ⟨⟨high, there⟩, highRead, closed⟩ := bind_eq_ok.mp rest
  obtain ⟨afterHigh, takesHigh, rfl, highAlone⟩ := within_upperBound shut _ _ _ _ _ highRead
  obtain ⟨found, same, takes, alone⟩ := within_closeBounds shut input.pos closed
  have before := takesLow.trans takesHigh
  refine ⟨found, same, fun bounds behind here => before.trans (takes bounds behind here), ?_⟩
  intro firm
  dsimp only at lowAlone
  rw [takeWhile_enough (Nat.le_refl _) longer] at lowAlone
  rw [upperBound_enough takesLow.suffix.length_le longer] at highAlone
  exact bind_eq_ok.mpr ⟨_, lowAlone firm,
    bind_eq_ok.mpr ⟨_, highAlone (firm.later takesLow), alone (firm.later before)⟩⟩

theorem closesAtOnce_within
    (shut : Shut post)
    (input : Input) :
    Reading.closesAtOnce (input.onto post shift) = Reading.closesAtOnce input := by
  unfold Reading.closesAtOnce
  exact decide_eq_decide.mpr ((Input.peek?_shut shut rfl).trans (Input.peek?_inner rfl).symm)

theorem within_lexRepeat
    (shut : Shut post)
    (flags : Flags)
    (c : Char) :
    Within post shift (lexRepeat flags c) := by
  intro input action last read
  unfold lexRepeat at read ⊢
  split at read
  · rename_i question
    simp only [if_pos question]
    exact within_lexBounds shut 0 1 _ _ _ read
  · rename_i noQuestion
    simp only [if_neg noQuestion]
    split at read
    · rename_i star
      simp only [if_pos star]
      exact within_lexBounds shut 0 endless _ _ _ read
    · rename_i noStar
      simp only [if_neg noStar]
      split at read
      · rename_i plus
        simp only [if_pos plus]
        exact within_lexBounds shut 1 endless _ _ _ read
      · rename_i noPlus
        rw [closesAtOnce_within shut] at read
        simp only [if_neg noPlus]
        split at read
        · rename_i closes
          cases read
          exact ⟨input, .refl input, rfl, fun _ => if_pos closes⟩
        · rename_i opens
          simp only [if_neg opens]
          obtain ⟨found, braced, rest⟩ := bind_eq_ok.mp read
          obtain ⟨bounds, rfl, takes, alone⟩ := within_bracedBounds shut braced
          cases bounds with
          | none =>
              cases rest
              exact ⟨input, .refl input, rfl, fun firm => bind_eq_ok.mpr ⟨_, alone firm, rfl⟩⟩
          | some found =>
              obtain ⟨bounds, between⟩ := found
              have before := takes bounds between rfl
              obtain ⟨behind, further, rfl, done⟩ := within_lexBounds shut _ _ _ _ _ rest
              refine ⟨behind, before.trans further, rfl, fun firm => ?_⟩
              exact bind_eq_ok.mpr ⟨_, alone firm, done (firm.later before)⟩

/-! ### Openings of groups -/

theorem within_lexBehind
    (shut : Shut post) :
    Within post shift lexBehind := by
  intro input action last read
  unfold lexBehind at read ⊢
  obtain ⟨taken, next, rest⟩ := bind_eq_ok.mp read
  split at rest
  · cases rest
  · cases rest
    obtain ⟨behind, takes, rfl, alone⟩ := Input.next?_within shut rfl next
    exact ⟨behind, takes, rfl, fun firm => bind_eq_ok.mpr ⟨_, alone firm, rfl⟩⟩
  · cases rest
    obtain ⟨behind, takes, rfl, alone⟩ := Input.next?_within shut rfl next
    exact ⟨behind, takes, rfl, fun firm => bind_eq_ok.mpr ⟨_, alone firm, rfl⟩⟩
  · cases rest

theorem isInner_of_ofLetter?
    {c : Char}
    {flag : InlineFlag}
    (letter : InlineFlag.ofLetter? c = some flag) :
    isInner c = true := by
  by_contra outer
  rw [isInner, Bool.not_eq_true', Bool.not_eq_false, List.contains_iff_mem] at outer
  simp only [List.mem_cons, List.not_mem_nil, or_false] at outer
  rcases outer with rfl | rfl | rfl | rfl | rfl <;> cases letter

theorem within_flagsOn
    (shut : Shut post)
    {steps more : Nat}
    {before on : List InlineFlag}
    {flag : InlineFlag}
    {closing : Char}
    {input last : Input}
    (inner : isInner closing = true)
    (enough : input.rest.length < more)
    (read : flagsOn steps before flag (input.onto post shift) = .ok (on, closing, last)) :
    ∃ behind, input.Takes behind ∧ last = behind.onto post shift ∧
      (input.Firm → flagsOn more before flag input = .ok (on, closing, behind)) := by
  induction steps generalizing more before flag input with
  | zero => cases read
  | succ steps inductionHypothesis =>
      obtain ⟨more, rfl⟩ : ∃ k, more = k + 1 := ⟨more - 1, by omega⟩
      unfold flagsOn at read ⊢
      split at read
      · cases read
      · rename_i notLocale
        simp only [if_neg notLocale]
        split at read
        · cases read
        · rename_i compatible
          simp only [if_neg compatible]
          obtain ⟨taken, next, rest⟩ := bind_eq_ok.mp read
          split at rest
          · cases rest
          · split at rest
            · rename_i c
              split at rest
              · rename_i ends
                cases rest
                obtain ⟨behind, takes, rfl, alone⟩ := Input.next?_within shut inner next
                refine ⟨behind, takes, rfl, fun firm => bind_eq_ok.mpr ⟨_, alone firm, ?_⟩⟩
                exact if_pos ends
              · rename_i goesOn
                split at rest
                · rename_i letter
                  obtain ⟨between, takes, rfl, alone⟩ :=
                    Input.next?_within shut (isInner_of_ofLetter? letter) next
                  have shorter := Input.length_next? next
                  simp only [Input.onto, List.length_append] at shorter
                  have few : between.rest.length < more := by omega
                  obtain ⟨behind, further, rfl, done⟩ := inductionHypothesis few rest
                  refine ⟨behind, takes.trans further, rfl,
                    fun firm => bind_eq_ok.mpr ⟨_, alone firm, ?_⟩⟩
                  dsimp only
                  rw [if_neg goesOn, letter]
                  exact done (firm.later takes)
                · unfold refuseFlag at rest
                  cases rest
            · unfold refuseFlag at rest
              cases rest

theorem within_flagsOff
    (shut : Shut post)
    {steps more : Nat}
    {before off : List InlineFlag}
    {fault : Fault}
    {input last : Input}
    (enough : input.rest.length < more)
    (read : flagsOff steps before fault (input.onto post shift) = .ok (off, last)) :
    ∃ behind, input.Takes behind ∧ last = behind.onto post shift ∧
      (input.Firm → flagsOff more before fault input = .ok (off, behind)) := by
  induction steps generalizing more before fault input with
  | zero => cases read
  | succ steps inductionHypothesis =>
      obtain ⟨more, rfl⟩ : ∃ k, more = k + 1 := ⟨more - 1, by omega⟩
      unfold flagsOff at read ⊢
      obtain ⟨taken, next, rest⟩ := bind_eq_ok.mp read
      split at rest
      · cases rest
      · split at rest
        · unfold refuseFlag at rest
          cases rest
        · rename_i c
          split at rest
          · rename_i ends
            cases rest
            have colon : c = ':' := by
              simpa using (Bool.and_eq_true_iff.mp ends).1
            subst colon
            obtain ⟨behind, takes, rfl, alone⟩ := Input.next?_within shut rfl next
            refine ⟨behind, takes, rfl, fun firm => bind_eq_ok.mpr ⟨_, alone firm, ?_⟩⟩
            exact if_pos ends
          · rename_i goesOn
            split at rest
            · unfold refuseFlag at rest
              cases rest
            · rename_i letter
              split at rest
              · cases rest
              · rename_i free
                obtain ⟨between, takes, rfl, alone⟩ :=
                  Input.next?_within shut (isInner_of_ofLetter? letter) next
                have shorter := Input.length_next? next
                simp only [Input.onto, List.length_append] at shorter
                have few : between.rest.length < more := by omega
                obtain ⟨behind, further, rfl, done⟩ := inductionHypothesis few rest
                refine ⟨behind, takes.trans further, rfl,
                  fun firm => bind_eq_ok.mpr ⟨_, alone firm, ?_⟩⟩
                dsimp only
                rw [if_neg goesOn, letter]
                dsimp only
                rw [if_neg free]
                exact done (firm.later takes)

theorem within_flagsCleared
    (shut : Shut post)
    {bound more : Nat}
    {closing : Char}
    {off : List InlineFlag}
    {input last : Input}
    (enough : input.rest.length < more)
    (read : flagsCleared bound closing (input.onto post shift) = .ok (off, last)) :
    ∃ behind, input.Takes behind ∧ last = behind.onto post shift ∧
      (input.Firm → flagsCleared more closing input = .ok (off, behind)) := by
  unfold flagsCleared at read ⊢
  split at read
  · rename_i clears
    simp only [if_pos clears]
    exact within_flagsOff shut enough read
  · rename_i keeps
    cases read
    exact ⟨input, .refl input, rfl, fun _ => if_neg keeps⟩

theorem within_flagsSet
    (shut : Shut post)
    {bound more : Nat}
    {first closing : Char}
    {on : List InlineFlag}
    {input last : Input}
    (inner : isInner closing = true)
    (enough : input.rest.length < more)
    (read : flagsSet bound first (input.onto post shift) = .ok (on, closing, last)) :
    ∃ behind, input.Takes behind ∧ last = behind.onto post shift ∧
      (input.Firm → flagsSet more first input = .ok (on, closing, behind)) := by
  unfold flagsSet at read ⊢
  cases letter : InlineFlag.ofLetter? first with
  | none =>
      rw [letter] at read
      cases read
      exact ⟨input, .refl input, rfl, fun _ => rfl⟩
  | some flag =>
      rw [letter] at read
      exact within_flagsOn shut inner enough read

/-- The list of flags for a group is not ended by a parenthesis. -/
theorem flagsOn_closing
    {steps : Nat}
    {before on : List InlineFlag}
    {flag : InlineFlag}
    {closing : Char}
    {input behind : Input}
    (read : flagsOn steps before flag input = .ok (on, closing, behind))
    (inGroup : ¬(closing == ')') = true) :
    isInner closing = true := by
  induction steps generalizing before flag input with
  | zero => cases read
  | succ steps inductionHypothesis =>
      unfold flagsOn at read
      split at read
      · cases read
      · split at read
        · cases read
        · obtain ⟨taken, _, rest⟩ := bind_eq_ok.mp read
          split at rest
          · cases rest
          · split at rest
            · split at rest
              · rename_i ends
                cases rest
                rw [Bool.or_eq_true, Bool.or_eq_true] at ends
                rcases ends with (parenthesis | hyphen) | colon
                · exact absurd parenthesis inGroup
                · cases beq_iff_eq.mp hyphen
                  rfl
                · cases beq_iff_eq.mp colon
                  rfl
              · split at rest
                · exact inductionHypothesis rest
                · unfold refuseFlag at rest
                  cases rest
            · unfold refuseFlag at rest
              cases rest

theorem flagsSet_closing
    {bound : Nat}
    {first closing : Char}
    {on : List InlineFlag}
    {input behind : Input}
    (read : flagsSet bound first input = .ok (on, closing, behind))
    (inGroup : ¬(closing == ')') = true) :
    isInner closing = true := by
  unfold flagsSet at read
  split at read
  · exact flagsOn_closing read inGroup
  · cases read
    rfl

theorem within_flagList
    (shut : Shut post)
    {first : Char}
    {on off : List InlineFlag}
    {input last : Input}
    (read : flagList first (input.onto post shift) = .ok (.scoped on off, last)) :
    ∃ behind, input.Takes behind ∧ last = behind.onto post shift ∧
      (input.Firm → flagList first input = .ok (.scoped on off, behind)) := by
  rw [flagList_eq] at read ⊢
  obtain ⟨⟨set, closing, there⟩, setRead, rest⟩ := bind_eq_ok.mp read
  unfold flagsEnd at rest
  dsimp only at rest
  split at rest
  · cases rest
  · rename_i inGroup
    split at rest
    · cases rest
    · rename_i noTemplate
      obtain ⟨⟨cleared, after⟩, clearedRead, rest⟩ := bind_eq_ok.mp rest
      dsimp only at rest
      split at rest
      · cases rest
      · rename_i noTemplateOff
        split at rest
        · cases rest
        · rename_i apart
          cases rest
          have inner : isInner closing = true := flagsSet_closing setRead inGroup
          obtain ⟨between, takes, rfl, alone⟩ :=
            within_flagsSet shut inner (Nat.lt_succ_self _) setRead
          have few := Nat.lt_succ_of_le takes.suffix.length_le
          obtain ⟨behind, further, rfl, done⟩ := within_flagsCleared shut few clearedRead
          refine ⟨behind, takes.trans further, rfl,
            fun firm => bind_eq_ok.mpr ⟨_, alone firm, ?_⟩⟩
          unfold flagsEnd
          dsimp only
          rw [if_neg inGroup, if_neg noTemplate]
          refine bind_eq_ok.mpr ⟨_, done (firm.later takes), ?_⟩
          dsimp only
          rw [if_neg noTemplateOff, if_neg apart]

theorem within_lexFlags
    (shut : Shut post)
    {flags : Flags}
    {first : Char}
    {input last : Input}
    {action : Action}
    (inGroup : ∀ on, action ≠ .everywhere on)
    (read : lexFlags flags first (input.onto post shift) = .ok (action, last)) :
    ∃ behind, input.Takes behind ∧ last = behind.onto post shift ∧
      (input.Firm → lexFlags flags first input = .ok (action, behind)) := by
  unfold lexFlags at read ⊢
  obtain ⟨⟨list, there⟩, listed, rest⟩ := bind_eq_ok.mp read
  rcases list with ⟨on⟩ | ⟨on, off⟩
  · cases rest
    exact absurd rfl (inGroup on)
  · cases rest
    obtain ⟨behind, takes, rfl, alone⟩ := within_flagList shut listed
    exact ⟨behind, takes, rfl, fun firm => bind_eq_ok.mpr ⟨_, alone firm, rfl⟩⟩

end Readers

end NoticeScan.Regex
