import Mathlib
import NoticeScan.Regex.Parser

/-!
# Reading a text that stands in a longer one

What is read from a text is also read from it when something follows, as long as what follows
cannot be taken for the continuation of a number or a repeat.
-/

namespace NoticeScan.Regex

theorem bind_eq_ok
    {ε α β : Type}
    {first : Except ε α}
    {second : α → Except ε β}
    {result : β} :
    (first >>= second) = .ok result ↔ ∃ value, first = .ok value ∧ second value = .ok result := by
  cases first with
  | error error => simp [bind, Except.bind]
  | ok value => simp [bind, Except.bind]

theorem eq_ok_of_toOption
    {ε α : Type}
    {outcome : Except ε α}
    {value : α}
    (is : outcome.toOption = some value) :
    outcome = .ok value := by
  cases outcome with
  | error error => cases is
  | ok other =>
      cases is
      rfl

/-- Whether a character may continue a repeat or a number. -/
def continues (c : Char) : Bool :=
  isDecimal c || ['?', '+', '*', ',', '-', '\x7b', '\x7d'].contains c

/-- A text that leaves what stands before it as it is. -/
structure Quiet (post : List Char) : Prop where
  notEscape : post ≠ ['\\']
  starts : ∀ c rest, post = c :: rest → continues c = false

namespace Input

/-- An input with a text behind it, in a place further on. -/
def onto (input : Input) (post : List Char) (shift : Nat) : Input :=
  ⟨input.rest ++ post, input.pos + shift⟩

/-- An input in which no single backslash is left over. -/
def Sound (input : Input) : Prop :=
  input.rest ≠ ['\\']

variable {input behind : Input} {post : List Char} (shift : Nat)

theorem sound_of_drop
    {count : Nat}
    (dropped : input.drop count = .ok behind) :
    behind.Sound := by
  unfold drop checked at dropped
  split at dropped
  · cases dropped
  · rename_i sound
    cases dropped
    exact sound

theorem drop_eq
    {count : Nat}
    (dropped : input.drop count = .ok behind) :
    behind = ⟨input.rest.drop count, input.pos + count⟩ := by
  unfold drop checked at dropped
  split at dropped
  · cases dropped
  · cases dropped
    rfl

theorem peek?_onto
    (post : List Char)
    (sound : input.Sound)
    (more : input.rest ≠ []) :
    (input.onto post shift).peek? = input.peek? := by
  obtain ⟨rest, pos⟩ := input
  cases rest with
  | nil => exact absurd rfl more
  | cons c others =>
      by_cases escape : c = '\\'
      · subst escape
        cases others with
        | nil => exact absurd rfl sound
        | cons d others => rfl
      · simp [peek?, onto, escape]

theorem rest_ne_nil_of_peek?
    {token : Token}
    (next : input.peek? = some token) :
    input.rest ≠ [] := by
  intro empty
  unfold peek? at next
  rw [empty] at next
  cases next

theorem width_le_of_peek?
    {token : Token}
    (next : input.peek? = some token) :
    token.width ≤ input.rest.length := by
  unfold peek? at next
  split at next
  · cases next
  · rename_i whole
    cases next
    rw [whole]
    simp [Token.width]
  · rename_i whole
    cases next
    rw [whole]
    simp [Token.width]

theorem drop_onto
    (notEscape : post ≠ ['\\'])
    {count : Nat}
    (few : count ≤ input.rest.length)
    (dropped : input.drop count = .ok behind) :
    (input.onto post shift).drop count = .ok (behind.onto post shift) := by
  have sound := sound_of_drop dropped
  cases drop_eq dropped
  have rest : (input.rest ++ post).drop count = input.rest.drop count ++ post :=
    List.drop_append_of_le_length few
  have notEscape : input.rest.drop count ++ post ≠ ['\\'] := by
    intro alone
    rcases List.append_eq_singleton_iff.mp alone with ⟨_, escape⟩ | ⟨escape, _⟩
    · exact notEscape escape
    · exact sound escape
  unfold drop checked onto
  simp only [rest, if_neg notEscape, Except.ok.injEq, mk.injEq, true_and]
  omega

theorem next?_onto
    (notEscape : post ≠ ['\\'])
    (sound : input.Sound)
    {token : Token}
    (next : input.next? = .ok (some (token, behind))) :
    behind.Sound ∧ (input.onto post shift).next? = .ok (some (token, behind.onto post shift)) := by
  unfold next? at next ⊢
  cases peeked : input.peek? with
  | none => simp [peeked] at next
  | some first =>
      simp only [peeked] at next
      cases dropped : input.drop first.width with
      | error error => simp [dropped] at next
      | ok after =>
          simp only [dropped, Except.ok.injEq, Option.some.injEq, Prod.mk.injEq] at next
          obtain ⟨rfl, rfl⟩ := next
          have same := peek?_onto shift post sound
            (rest_ne_nil_of_peek? peeked)
          have further := drop_onto shift notEscape (width_le_of_peek? peeked) dropped
          simp only [same, peeked, further]
          exact ⟨sound_of_drop dropped, trivial⟩

theorem take?_onto
    (notEscape : post ≠ ['\\'])
    (sound : input.Sound)
    {c : Char}
    (taken : input.take? c = .ok (some behind)) :
    behind.Sound ∧ (input.onto post shift).take? c = .ok (some (behind.onto post shift)) := by
  unfold take? at taken ⊢
  split at taken
  · rename_i peeked
    cases dropped : input.drop 1 with
    | error error => simp [dropped] at taken
    | ok after =>
        simp only [dropped, Except.ok.injEq, Option.some.injEq] at taken
        subst taken
        have same := peek?_onto shift post sound
          (rest_ne_nil_of_peek? peeked)
        have further := drop_onto shift notEscape (width_le_of_peek? peeked) dropped
        simp only [Token.width] at further
        rw [if_pos (same.trans peeked), further]
        exact ⟨sound_of_drop dropped, rfl⟩
  · simp at taken

/-- The first token of a quiet text is no character that goes on with something. -/
theorem peek?_quiet
    (quiet : Quiet post)
    {c : Char}
    (continuing : continues c = true)
    (ended : input.rest = []) :
    (input.onto post shift).peek? ≠ some (.plain c) := by
  intro next
  unfold peek? onto at next
  rw [ended, List.nil_append] at next
  simp only at next
  split at next
  · cases next
  · cases next
  · rename_i first rest _
    cases next
    have still := quiet.starts c rest rfl
    rw [still] at continuing
    cases continuing

theorem take?_none_onto
    (quiet : Quiet post)
    (sound : input.Sound)
    {c : Char}
    (mattering : input.rest = [] → continues c = true)
    (taken : input.take? c = .ok none) :
    (input.onto post shift).take? c = .ok none := by
  have absent : input.peek? ≠ some (.plain c) := by
    intro peeked
    unfold take? at taken
    rw [if_pos peeked] at taken
    cases dropped : input.drop 1 with
    | error error => simp [dropped] at taken
    | ok after => simp [dropped] at taken
  have still : (input.onto post shift).peek? ≠ some (.plain c) := by
    by_cases ended : input.rest = []
    · exact peek?_quiet shift quiet (mattering ended) ended
    · rw [peek?_onto shift post sound ended]
      exact absent
  unfold take?
  rw [if_neg still]

theorem length_next?
    {token : Token}
    (next : input.next? = .ok (some (token, behind))) :
    behind.rest.length < input.rest.length := by
  unfold next? at next
  cases peeked : input.peek? with
  | none => simp [peeked] at next
  | some first =>
      simp only [peeked] at next
      cases dropped : input.drop first.width with
      | error error => simp [dropped] at next
      | ok after =>
          simp only [dropped, Except.ok.injEq, Option.some.injEq, Prod.mk.injEq] at next
          obtain ⟨rfl, rfl⟩ := next
          have wide := width_le_of_peek? peeked
          have positive : 0 < first.width := by cases first <;> simp [Token.width]
          rw [drop_eq dropped, List.length_drop]
          omega

theorem length_take?
    {c : Char}
    (taken : input.take? c = .ok (some behind)) :
    behind.rest.length < input.rest.length := by
  unfold take? at taken
  split at taken
  · rename_i peeked
    cases dropped : input.drop 1 with
    | error error => simp [dropped] at taken
    | ok after =>
        simp only [dropped, Except.ok.injEq, Option.some.injEq] at taken
        subst taken
        have wide := width_le_of_peek? peeked
        simp only [Token.width] at wide
        rw [drop_eq dropped, List.length_drop]
        omega
  · simp at taken

end Input

/-! ## Readers -/

/-- A reader reads the same when a text follows, and reads no further into it. -/
def Stable (post : List Char) (shift : Nat) {α : Type} (read : Input → Except Error (α × Input)) :
    Prop :=
  ∀ input value behind, input.Sound → read input = .ok (value, behind) →
    behind.Sound ∧ behind.rest.length ≤ input.rest.length ∧
      read (input.onto post shift) = .ok (value, behind.onto post shift)

section Readers

variable {post : List Char} (shift : Nat)

theorem stable_ok
    (post : List Char)
    {α : Type}
    (value : α) :
    Stable post shift fun input => .ok (value, input) := by
  intro input value behind sound read
  cases read
  exact ⟨sound, Nat.le_refl _, rfl⟩

theorem Stable.bind
    {shift : Nat}
    {α β : Type}
    {first : Input → Except Error (α × Input)}
    {second : α → Input → Except Error (β × Input)}
    (one : Stable post shift first)
    (other : ∀ value, Stable post shift (second value)) :
    Stable post shift fun input => first input >>= fun (value, behind) => second value behind := by
  intro input value behind sound read
  obtain ⟨⟨middle, between⟩, firstRead, secondRead⟩ := bind_eq_ok.mp read
  obtain ⟨betweenSound, shorter, firstOnto⟩ := one input middle between sound firstRead
  obtain ⟨behindSound, shortest, secondOnto⟩ :=
    other middle between value behind betweenSound secondRead
  refine ⟨behindSound, Nat.le_trans shortest shorter, ?_⟩
  exact bind_eq_ok.mpr ⟨_, firstOnto, secondOnto⟩

/-- What a bounded run of characters is, step by step. -/
theorem takeWhile_cases
    {accepts : Char → Bool}
    {count : Nat}
    {input behind : Input}
    {taken : List Char}
    (read : input.takeWhile accepts (count + 1) = .ok (taken, behind)) :
    (∃ c between rest, input.peek? = some (.plain c) ∧ accepts c = true ∧
        input.drop 1 = .ok between ∧ between.takeWhile accepts count = .ok (rest, behind) ∧
        taken = c :: rest) ∨
      ((∀ c, input.peek? = some (.plain c) → accepts c = false) ∧ taken = [] ∧
        behind = input) := by
  unfold Input.takeWhile at read
  split at read
  · rename_i c peeked
    split at read
    · rename_i accepted
      cases dropped : input.drop 1 with
      | error error => simp [dropped] at read
      | ok between =>
          simp only [dropped] at read
          cases others : between.takeWhile accepts count with
          | error error => simp [others] at read
          | ok result =>
              obtain ⟨rest, last⟩ := result
              simp only [others, Except.ok.injEq, Prod.mk.injEq] at read
              obtain ⟨rfl, rfl⟩ := read
              exact Or.inl ⟨c, between, rest, peeked, accepted, rfl, others, rfl⟩
    · rename_i rejected
      cases read
      refine Or.inr ⟨?_, rfl, rfl⟩
      intro d same
      rw [peeked] at same
      cases same
      exact Bool.eq_false_iff.mpr rejected
  · rename_i notPlain
    cases read
    exact Or.inr ⟨fun c same => absurd same (notPlain c), rfl, rfl⟩

theorem takeWhile_step
    {accepts : Char → Bool}
    {count : Nat}
    {input between behind : Input}
    {c : Char}
    {rest : List Char}
    (peeked : input.peek? = some (.plain c))
    (accepted : accepts c = true)
    (dropped : input.drop 1 = .ok between)
    (others : between.takeWhile accepts count = .ok (rest, behind)) :
    input.takeWhile accepts (count + 1) = .ok (c :: rest, behind) := by
  unfold Input.takeWhile
  simp only [peeked, accepted, dropped, others, if_true]

theorem takeWhile_stop
    {accepts : Char → Bool}
    {input : Input}
    (stops : ∀ c, input.peek? = some (.plain c) → accepts c = false)
    (count : Nat) :
    input.takeWhile accepts count = .ok ([], input) := by
  cases count with
  | zero => rfl
  | succ count =>
      unfold Input.takeWhile
      split
      · rename_i c peeked
        rw [stops c peeked]
        rfl
      · rfl

/-- A bounded run of characters that reached its bound, or of characters that no quiet text
starts with. -/
theorem takeWhile_onto
    (quiet : Quiet post)
    {accepts : Char → Bool}
    {count : Nat}
    {input behind : Input}
    {taken : List Char}
    (sound : input.Sound)
    (read : input.takeWhile accepts count = .ok (taken, behind))
    (apart : taken.length = count ∨ ∀ c, accepts c = true → continues c = true) :
    behind.Sound ∧ behind.rest.length ≤ input.rest.length ∧
      (input.onto post shift).takeWhile accepts count = .ok (taken, behind.onto post shift) := by
  induction count generalizing input taken with
  | zero =>
      cases read
      exact ⟨sound, Nat.le_refl _, rfl⟩
  | succ count inductionHypothesis =>
      rcases takeWhile_cases read with
        ⟨c, between, rest, peeked, accepted, dropped, others, rfl⟩ | ⟨stops, rfl, rfl⟩
      · have apart' : rest.length = count ∨ ∀ c, accepts c = true → continues c = true := by
          rcases apart with full | digits
          · exact Or.inl (by simpa using full)
          · exact Or.inr digits
        have more := Input.rest_ne_nil_of_peek? peeked
        have wide := Input.width_le_of_peek? peeked
        obtain ⟨behindSound, shorter, restOnto⟩ :=
          inductionHypothesis (Input.sound_of_drop dropped) others apart'
        have length : between.rest.length ≤ input.rest.length := by
          rw [Input.drop_eq dropped, List.length_drop]
          omega
        refine ⟨behindSound, Nat.le_trans shorter length, ?_⟩
        exact takeWhile_step ((Input.peek?_onto shift post sound more).trans peeked) accepted
          (Input.drop_onto shift quiet.notEscape wide dropped) restOnto
      · refine ⟨sound, Nat.le_refl _, takeWhile_stop ?_ _⟩
        intro c peeked
        by_cases ended : behind.rest = []
        · rcases apart with full | digits
          · simp at full
          · by_contra accepted
            have accepted' : accepts c = true := by simpa using accepted
            exact Input.peek?_quiet shift quiet (digits c accepted') ended peeked
        · rw [Input.peek?_onto shift post sound ended] at peeked
          exact stops c peeked

/-- A bound beyond the length of the text makes no difference. -/
theorem takeWhile_more
    {accepts : Char → Bool}
    {count more : Nat}
    {input behind : Input}
    {taken : List Char}
    (enough : input.rest.length ≤ count)
    (le : count ≤ more)
    (read : input.takeWhile accepts count = .ok (taken, behind)) :
    input.takeWhile accepts more = .ok (taken, behind) := by
  induction count generalizing input taken more with
  | zero =>
      cases read
      apply takeWhile_stop
      intro c peeked
      have longer := Input.width_le_of_peek? peeked
      simp only [Token.width] at longer
      omega
  | succ count inductionHypothesis =>
      rcases takeWhile_cases read with
        ⟨c, between, rest, peeked, accepted, dropped, others, rfl⟩ | ⟨stops, rfl, rfl⟩
      · obtain ⟨more, rfl⟩ : ∃ k, more = k + 1 := ⟨more - 1, by omega⟩
        have wide := Input.width_le_of_peek? peeked
        simp only [Token.width] at wide
        have shorter : between.rest.length ≤ count := by
          rw [Input.drop_eq dropped, List.length_drop]
          omega
        exact takeWhile_step peeked accepted dropped
          (inductionHypothesis shorter (Nat.le_of_succ_le_succ le) others)
      · exact takeWhile_stop stops more

/-! ### Escapes -/

theorem stable_hexEscape
    (quiet : Quiet post)
    (letter : Char)
    (width : Nat) :
    Stable post shift (hexEscape letter width) := by
  intro input value behind sound read
  unfold hexEscape at read ⊢
  obtain ⟨⟨digits, last⟩, taken, rest⟩ := bind_eq_ok.mp read
  simp only at rest
  split at rest
  · cases rest
  · rename_i full
    have complete : digits.length = width := by simpa using full
    split at rest
    · cases rest
    · rename_i small
      cases rest
      obtain ⟨behindSound, shorter, onto⟩ :=
        takeWhile_onto shift quiet sound taken (Or.inl complete)
      refine ⟨behindSound, shorter, bind_eq_ok.mpr ⟨_, onto, ?_⟩⟩
      simp only [complete, ne_eq, not_true_eq_false, if_false, if_neg small]

theorem stable_namedEscape
    (post : List Char) :
    Stable post shift namedEscape := by
  intro input value behind _ read
  unfold namedEscape at read
  obtain ⟨taken, _, rest⟩ := bind_eq_ok.mp read
  cases taken with
  | none => cases rest
  | some inside =>
      obtain ⟨_, _, refused⟩ := bind_eq_ok.mp rest
      cases refused

theorem stable_octalEscape
    (post : List Char)
    (digits : List Char) :
    Stable post shift (octalEscape digits) := by
  intro input value behind sound read
  unfold octalEscape at read ⊢
  split at read
  · cases read
  · rename_i small
    cases read
    exact ⟨sound, Nat.le_refl _, by rw [if_neg small]⟩

theorem stable_selfEscape
    (post : List Char)
    (c : Char) :
    Stable post shift (selfEscape c) := by
  intro input value behind sound read
  unfold selfEscape at read ⊢
  split at read
  · cases read
  · rename_i plain
    cases read
    exact ⟨sound, Nat.le_refl _, by rw [if_neg plain]⟩

theorem continues_of_isDecimal
    {c : Char}
    (digit : isDecimal c = true) :
    continues c = true := by
  simp [continues, digit]

theorem continues_of_isOctal
    {c : Char}
    (digit : isOctal c = true) :
    continues c = true := by
  apply continues_of_isDecimal
  simp only [isOctal, isDecimal, Bool.and_eq_true, decide_eq_true_eq] at digit ⊢
  exact ⟨digit.1, Char.le_trans digit.2 (by decide)⟩

/-- A bounded number of digits. -/
theorem stable_takeDigits
    (quiet : Quiet post)
    {accepts : Char → Bool}
    (digits : ∀ c, accepts c = true → continues c = true)
    (count : Nat) :
    Stable post shift fun input => input.takeWhile accepts count :=
  fun _ _ _ sound read => takeWhile_onto shift quiet sound read (Or.inr digits)

theorem stable_numberEscape
    (quiet : Quiet post)
    (c : Char) :
    Stable post shift (numberEscape c) := by
  intro input value behind sound read
  unfold numberEscape at read ⊢
  obtain ⟨⟨second, between⟩, taken, rest⟩ := bind_eq_ok.mp read
  obtain ⟨betweenSound, shorter, onto⟩ :=
    takeWhile_onto shift quiet sound taken (Or.inr fun _ => continues_of_isDecimal)
  rw [onto]
  cases second with
  | nil =>
      cases rest
      exact ⟨betweenSound, shorter, rfl⟩
  | cons d others =>
      simp only [bind, Except.bind] at rest ⊢
      split at rest
      · rename_i octal
        cases takenThird : between.takeWhile isOctal 1 with
        | error error => simp [takenThird] at rest
        | ok result =>
            obtain ⟨third, last⟩ := result
            obtain ⟨lastSound, shortest, ontoThird⟩ :=
              takeWhile_onto shift quiet betweenSound takenThird
                (Or.inr fun _ => continues_of_isOctal)
            simp only [takenThird, ontoThird, if_pos octal] at rest ⊢
            cases third with
            | nil =>
                cases rest
                exact ⟨betweenSound, shorter, rfl⟩
            | cons e more =>
                obtain ⟨behindSound, final, done⟩ :=
                  stable_octalEscape shift post _ last value behind lastSound rest
                exact ⟨behindSound, Nat.le_trans final (Nat.le_trans shortest shorter), done⟩
      · rename_i notOctal
        cases rest
        simp only [if_neg notOctal]
        exact ⟨betweenSound, shorter, trivial⟩

theorem stable_outerEscape
    (quiet : Quiet post)
    (c : Char) :
    Stable post shift (outerEscape c) := by
  unfold outerEscape
  split
  · exact stable_ok shift post _
  · split
    · exact stable_ok shift post _
    · exact stable_ok shift post _
    · exact stable_hexEscape shift quiet c _
    · split
      · exact stable_namedEscape shift post
      · split
        · exact (stable_takeDigits shift quiet (fun _ => continues_of_isOctal) 2).bind
            fun more => stable_octalEscape shift post (c :: more)
        · split
          · exact stable_numberEscape shift quiet c
          · exact stable_selfEscape shift post c

theorem stable_classEscape
    (quiet : Quiet post)
    (c : Char) :
    Stable post shift (classEscape c) := by
  unfold classEscape
  split
  · exact stable_ok shift post _
  · exact stable_ok shift post _
  · exact stable_hexEscape shift quiet c _
  · split
    · exact stable_namedEscape shift post
    · split
      · exact (stable_takeDigits shift quiet (fun _ => continues_of_isOctal) 2).bind
          fun more => stable_octalEscape shift post (c :: more)
      · exact stable_selfEscape shift post c

/-! ### Classes -/

theorem stable_classEntry
    (quiet : Quiet post)
    (token : Token) :
    Stable post shift (classEntry token) := by
  intro input value behind sound read
  unfold classEntry at read ⊢
  cases token with
  | plain c => exact stable_ok shift post _ input value behind sound read
  | escaped c =>
      obtain ⟨⟨escape, last⟩, escaped, rest⟩ := bind_eq_ok.mp read
      obtain ⟨lastSound, shorter, onto⟩ :=
        stable_classEscape shift quiet c input escape last sound escaped
      simp only [onto, bind, Except.bind]
      cases escape with
      | point x =>
          cases rest
          exact ⟨lastSound, shorter, rfl⟩
      | category kind negated =>
          cases rest
          exact ⟨lastSound, shorter, rfl⟩
      | anchor letter => cases rest
      | group index => cases rest

theorem classRange_onto
    {low high range : Member}
    {lowToken highToken : Token}
    {behind : Input}
    (read : classRange low high lowToken highToken behind = .ok range)
    (other : Input) :
    classRange low high lowToken highToken other = .ok range := by
  unfold classRange at read ⊢
  cases low with
  | point x =>
      cases high with
      | point y =>
          simp only at read ⊢
          split at read
          · cases read
          · rename_i ordered
            rw [if_neg ordered]
            exact read
      | range _ _ => cases read
      | category _ _ => cases read
  | range _ _ => cases high <;> cases read
  | category _ _ => cases high <;> cases read

/-- The members of a class that is closed, read with any bound that is large enough. -/
theorem classBodyFrom_onto
    (quiet : Quiet post)
    {start : Nat}
    (otherStart : Nat)
    {steps more : Nat}
    {found members : List Member}
    {input behind : Input}
    (sound : input.Sound)
    (enough : input.rest.length < steps)
    (le : steps ≤ more)
    (read : classBodyFrom start steps found input = .ok (members, behind)) :
    behind.Sound ∧ behind.rest.length ≤ input.rest.length ∧
      classBodyFrom otherStart more found (input.onto post shift) =
        .ok (members, behind.onto post shift) := by
  induction steps generalizing more found input with
  | zero => omega
  | succ steps inductionHypothesis =>
      obtain ⟨more, rfl⟩ : ∃ k, more = k + 1 := ⟨more - 1, by omega⟩
      unfold classBodyFrom at read ⊢
      obtain ⟨first, next, rest⟩ := bind_eq_ok.mp read
      cases first with
      | none => cases rest
      | some step =>
          obtain ⟨token, inside⟩ := step
          obtain ⟨insideSound, nextOnto⟩ := Input.next?_onto shift quiet.notEscape sound next
          have shorter := Input.length_next? next
          simp only [nextOnto, bind, Except.bind] at rest ⊢
          split at rest
          · rename_i closes
            cases rest
            rw [if_pos closes]
            exact ⟨insideSound, Nat.le_of_lt shorter, rfl⟩
          · rename_i goesOn
            rw [if_neg goesOn]
            cases entry : classEntry token inside with
            | error error => simp [entry] at rest
            | ok result =>
                obtain ⟨low, after⟩ := result
                obtain ⟨afterSound, shortAfter, entryOnto⟩ :=
                  stable_classEntry shift quiet token inside low after insideSound entry
                simp only [entry, entryOnto] at rest ⊢
                cases dash : after.take? '-' with
                | error error => simp [dash] at rest
                | ok dashed =>
                    cases dashed with
                    | none =>
                        have dashOnto :=
                          Input.take?_none_onto shift quiet afterSound
                            (fun _ => by decide) dash
                        simp only [dash, dashOnto] at rest ⊢
                        have le' : steps ≤ more := by omega
                        obtain ⟨behindSound, short, done⟩ :=
                          inductionHypothesis afterSound (by omega) le' rest
                        exact ⟨behindSound, by omega, done⟩
                    | some dashed =>
                        obtain ⟨dashedSound, dashOnto⟩ :=
                          Input.take?_onto shift quiet.notEscape afterSound dash
                        have shortDash := Input.length_take? dash
                        simp only [dash, dashOnto] at rest ⊢
                        cases second : dashed.next? with
                        | error error => simp [second] at rest
                        | ok next' =>
                            cases next' with
                            | none => simp [second, Fault.at] at rest
                            | some step' =>
                                obtain ⟨other, last⟩ := step'
                                obtain ⟨lastSound, secondOnto⟩ :=
                                  Input.next?_onto shift quiet.notEscape dashedSound second
                                have shortLast := Input.length_next? second
                                simp only [second, secondOnto] at rest ⊢
                                split at rest
                                · rename_i closes
                                  cases rest
                                  rw [if_pos closes]
                                  exact ⟨lastSound, by omega, rfl⟩
                                · rename_i ranges
                                  rw [if_neg ranges]
                                  cases entry' : classEntry other last with
                                  | error error => simp [entry'] at rest
                                  | ok result' =>
                                      obtain ⟨high, close⟩ := result'
                                      obtain ⟨closeSound, shortClose, entryOnto'⟩ :=
                                        stable_classEntry shift quiet other last high close
                                          lastSound entry'
                                      simp only [entry', entryOnto'] at rest ⊢
                                      cases range : classRange low high token other close with
                                      | error error => simp [range] at rest
                                      | ok member =>
                                          rw [classRange_onto range]
                                          simp only [range] at rest ⊢
                                          have le' : steps ≤ more := by omega
                                          obtain ⟨behindSound, short, done⟩ :=
                                            inductionHypothesis closeSound (by omega) le' rest
                                          exact ⟨behindSound, by omega, done⟩

theorem classBody_onto
    (quiet : Quiet post)
    {input behind : Input}
    {negated : Bool}
    {members : List Member}
    (sound : input.Sound)
    (read : classBody input = .ok (negated, members, behind)) :
    behind.Sound ∧ behind.rest.length ≤ input.rest.length ∧
      classBody (input.onto post shift) = .ok (negated, members, behind.onto post shift) := by
  have longer : ∀ inside : Input,
      inside.rest.length + 1 ≤ (inside.onto post shift).rest.length + 1 := by
    intro inside
    simp [Input.onto]
  unfold classBody at read ⊢
  obtain ⟨taken, caret, rest⟩ := bind_eq_ok.mp read
  cases taken with
  | none =>
      obtain ⟨⟨found, last⟩, body, done⟩ := bind_eq_ok.mp rest
      cases done
      have more : input.rest ≠ [] := by
        intro ended
        have nothing : input.next? = .ok none := by
          unfold Input.next? Input.peek?
          rw [ended]
        unfold classBodyFrom at body
        simp only [nothing, bind, Except.bind] at body
        cases body
      have caretOnto :=
        Input.take?_none_onto shift quiet sound (fun ended => absurd ended more) caret
      obtain ⟨lastSound, shorter, bodyOnto⟩ :=
        classBodyFrom_onto shift quiet ((input.onto post shift).pos - 1) sound
          (Nat.lt_succ_self _) (longer input) body
      refine ⟨lastSound, shorter, ?_⟩
      simp only [caretOnto, bodyOnto, bind, Except.bind]
  | some inside =>
      obtain ⟨insideSound, caretOnto⟩ := Input.take?_onto shift quiet.notEscape sound caret
      obtain ⟨⟨found, last⟩, body, done⟩ := bind_eq_ok.mp rest
      cases done
      obtain ⟨lastSound, shorter, bodyOnto⟩ :=
        classBodyFrom_onto shift quiet ((input.onto post shift).pos - 1) insideSound
          (Nat.lt_succ_self _) (longer inside) body
      have shortCaret := Input.length_take? caret
      refine ⟨lastSound, by omega, ?_⟩
      simp only [caretOnto, bodyOnto, bind, Except.bind]

/-! ### Repeats -/

theorem stable_readGreed
    (quiet : Quiet post) :
    Stable post shift Reading.readGreed := by
  intro input value behind sound read
  unfold Reading.readGreed at read ⊢
  obtain ⟨taken, mark, rest⟩ := bind_eq_ok.mp read
  cases taken with
  | some inside =>
      cases rest
      obtain ⟨behindSound, markOnto⟩ := Input.take?_onto shift quiet.notEscape sound mark
      refine ⟨behindSound, Nat.le_of_lt (Input.length_take? mark), ?_⟩
      simp only [markOnto, bind, Except.bind]
  | none =>
      have markOnto := Input.take?_none_onto shift quiet sound (fun _ => by decide) mark
      obtain ⟨taken, plus, rest⟩ := bind_eq_ok.mp rest
      cases taken with
      | some inside =>
          cases rest
          obtain ⟨behindSound, plusOnto⟩ := Input.take?_onto shift quiet.notEscape sound plus
          refine ⟨behindSound, Nat.le_of_lt (Input.length_take? plus), ?_⟩
          simp only [markOnto, plusOnto, bind, Except.bind]
      | none =>
          cases rest
          have plusOnto := Input.take?_none_onto shift quiet sound (fun _ => by decide) plus
          refine ⟨sound, Nat.le_refl _, ?_⟩
          simp only [markOnto, plusOnto, bind, Except.bind]

/-- Digits, read with any bound that is large enough. -/
theorem takeDigits_onto
    (quiet : Quiet post)
    {count : Nat}
    {input behind : Input}
    {digits : List Char}
    (sound : input.Sound)
    (enough : input.rest.length ≤ count)
    (read : input.takeWhile isDecimal count = .ok (digits, behind)) :
    behind.Sound ∧ behind.rest.length ≤ input.rest.length ∧
      (input.onto post shift).takeWhile isDecimal (count + post.length) =
        .ok (digits, behind.onto post shift) :=
  takeWhile_onto shift quiet sound
    (takeWhile_more enough (Nat.le_add_right count post.length) read)
    (Or.inr fun _ => continues_of_isDecimal)

/-- The upper bound of a repeat: digits behind a comma, or the lower bound if there is none. -/
def upperBound (count : Nat) (low : List Char) (input : Input) :
    Except Error (List Char × Input) := do
  match ← input.take? ',' with
  | some comma => comma.takeWhile isDecimal count
  | none => .ok (low, input)

/-- The number that the digits of an upper bound spell; without digits there is no bound. -/
def upperNumber (digits : List Char) : Except Error Nat :=
  if digits.isEmpty then .ok endless else boundOf digits

/-- The bounds of a repeat when their digits have been read, up to the closing brace. -/
def closeBounds (mark : Nat) (low high : List Char) (input : Input) :
    Except Error (Option (Reading.Bounds × Input)) := do
  match ← input.take? '\x7d' with
  | none => .ok none
  | some behind =>
      let lowBound ← boundOf low
      let highBound ← upperNumber high
      if highBound < lowBound then Fault.bounds.at mark
      else .ok (some (⟨lowBound, highBound⟩, behind))

theorem bracedBounds_eq
    (input : Input) :
    Reading.bracedBounds input =
      input.takeWhile isDecimal input.rest.length >>= fun low =>
        upperBound input.rest.length low.1 low.2 >>= fun high =>
          closeBounds input.pos low.1 high.1 high.2 := by
  unfold Reading.bracedBounds upperBound closeBounds upperNumber
  simp only [bind, Except.bind]
  cases input.takeWhile isDecimal input.rest.length with
  | error error => rfl
  | ok low =>
      obtain ⟨low, afterLow⟩ := low
      simp only
      cases afterLow.take? ',' with
      | error error => rfl
      | ok comma =>
          cases comma with
          | none =>
              simp only
              cases afterLow.take? '\x7d' with
              | error error => rfl
              | ok brace =>
                  cases brace with
                  | none => rfl
                  | some behind => cases low.isEmpty <;> rfl
          | some inside =>
              simp only
              cases inside.takeWhile isDecimal input.rest.length with
              | error error => rfl
              | ok high =>
                  obtain ⟨high, afterHigh⟩ := high
                  simp only
                  cases afterHigh.take? '\x7d' with
                  | error error => rfl
                  | ok brace =>
                      cases brace with
                      | none => rfl
                      | some behind => cases high.isEmpty <;> rfl

theorem upperBound_onto
    (quiet : Quiet post)
    {count : Nat}
    {low high : List Char}
    {input behind : Input}
    (sound : input.Sound)
    (enough : input.rest.length ≤ count)
    (read : upperBound count low input = .ok (high, behind)) :
    behind.Sound ∧ behind.rest.length ≤ input.rest.length ∧
      upperBound (count + post.length) low (input.onto post shift) =
        .ok (high, behind.onto post shift) := by
  unfold upperBound at read ⊢
  obtain ⟨comma, taken, rest⟩ := bind_eq_ok.mp read
  cases comma with
  | none =>
      cases rest
      have onto := Input.take?_none_onto shift quiet sound (fun _ => by decide) taken
      exact ⟨sound, Nat.le_refl _, bind_eq_ok.mpr ⟨none, onto, rfl⟩⟩
  | some inside =>
      obtain ⟨insideSound, onto⟩ := Input.take?_onto shift quiet.notEscape sound taken
      have short := Input.length_take? taken
      obtain ⟨highSound, shorter, highOnto⟩ :=
        takeDigits_onto shift quiet insideSound (by omega) rest
      exact ⟨highSound, by omega, bind_eq_ok.mpr ⟨_, onto, highOnto⟩⟩

theorem closeBounds_onto
    (quiet : Quiet post)
    {mark : Nat}
    (otherMark : Nat)
    {low high : List Char}
    {input : Input}
    {result : Option (Reading.Bounds × Input)}
    (sound : input.Sound)
    (read : closeBounds mark low high input = .ok result) :
    (∀ bounds behind, result = some (bounds, behind) →
        behind.Sound ∧ behind.rest.length ≤ input.rest.length) ∧
      closeBounds otherMark low high (input.onto post shift) =
        .ok (result.map fun (bounds, behind) => (bounds, behind.onto post shift)) := by
  unfold closeBounds at read ⊢
  obtain ⟨brace, taken, rest⟩ := bind_eq_ok.mp read
  cases brace with
  | none =>
      cases rest
      have onto := Input.take?_none_onto shift quiet sound (fun _ => by decide) taken
      refine ⟨?_, bind_eq_ok.mpr ⟨none, onto, rfl⟩⟩
      intro bounds behind same
      cases same
  | some inside =>
      obtain ⟨insideSound, onto⟩ := Input.take?_onto shift quiet.notEscape sound taken
      have short := Input.length_take? taken
      obtain ⟨lowBound, lowRead, rest⟩ := bind_eq_ok.mp rest
      obtain ⟨highBound, highRead, rest⟩ := bind_eq_ok.mp rest
      split at rest
      · cases rest
      · rename_i ordered
        cases rest
        refine ⟨?_, bind_eq_ok.mpr ⟨_, onto, ?_⟩⟩
        · intro bounds behind same
          cases same
          exact ⟨insideSound, Nat.le_of_lt short⟩
        · refine bind_eq_ok.mpr ⟨lowBound, lowRead, bind_eq_ok.mpr ⟨highBound, highRead, ?_⟩⟩
          rw [if_neg ordered]
          rfl

theorem bracedBounds_onto
    (quiet : Quiet post)
    {input : Input}
    {result : Option (Reading.Bounds × Input)}
    (sound : input.Sound)
    (read : Reading.bracedBounds input = .ok result) :
    (∀ bounds behind, result = some (bounds, behind) →
        behind.Sound ∧ behind.rest.length ≤ input.rest.length) ∧
      Reading.bracedBounds (input.onto post shift) =
        .ok (result.map fun (bounds, behind) => (bounds, behind.onto post shift)) := by
  have length : (input.onto post shift).rest.length = input.rest.length + post.length :=
    List.length_append
  rw [bracedBounds_eq] at read ⊢
  rw [length]
  obtain ⟨⟨low, afterLow⟩, lowRead, rest⟩ := bind_eq_ok.mp read
  obtain ⟨⟨high, afterHigh⟩, highRead, closed⟩ := bind_eq_ok.mp rest
  obtain ⟨lowSound, shortLow, lowOnto⟩ :=
    takeDigits_onto shift quiet sound (Nat.le_refl _) lowRead
  obtain ⟨highSound, shortHigh, highOnto⟩ :=
    upperBound_onto shift quiet lowSound shortLow highRead
  obtain ⟨ends, closeOnto⟩ :=
    closeBounds_onto shift quiet (input.onto post shift).pos highSound closed
  refine ⟨?_, ?_⟩
  · intro bounds behind same
    obtain ⟨behindSound, shorter⟩ := ends bounds behind same
    exact ⟨behindSound, Nat.le_trans shorter (Nat.le_trans shortHigh shortLow)⟩
  · exact bind_eq_ok.mpr ⟨_, lowOnto, bind_eq_ok.mpr ⟨_, highOnto, closeOnto⟩⟩

/-! ### Flags and comments -/

theorem flagsOn_onto
    (notEscape : post ≠ ['\\'])
    {steps more : Nat}
    {before on : List InlineFlag}
    {flag : InlineFlag}
    {closing : Char}
    {input behind : Input}
    (sound : input.Sound)
    (le : steps ≤ more)
    (read : flagsOn steps before flag input = .ok (on, closing, behind)) :
    behind.Sound ∧ behind.rest.length ≤ input.rest.length ∧
      flagsOn more before flag (input.onto post shift) =
        .ok (on, closing, behind.onto post shift) := by
  induction steps generalizing more before flag input with
  | zero => cases read
  | succ steps inductionHypothesis =>
      obtain ⟨more, rfl⟩ : ∃ k, more = k + 1 := ⟨more - 1, by omega⟩
      have le' : steps ≤ more := by omega
      unfold flagsOn at read ⊢
      split at read
      · cases read
      · rename_i notLocale
        rw [if_neg notLocale]
        split at read
        · cases read
        · rename_i compatible
          rw [if_neg compatible]
          obtain ⟨next, taken, rest⟩ := bind_eq_ok.mp read
          cases next with
          | none => cases rest
          | some step =>
              obtain ⟨token, after⟩ := step
              obtain ⟨afterSound, takenOnto⟩ := Input.next?_onto shift notEscape sound taken
              have short := Input.length_next? taken
              simp only [takenOnto, bind, Except.bind]
              cases token with
              | escaped c => cases rest
              | plain c =>
                  simp only at rest ⊢
                  split at rest
                  · rename_i closes
                    cases rest
                    rw [if_pos closes]
                    exact ⟨afterSound, Nat.le_of_lt short, rfl⟩
                  · rename_i goesOn
                    rw [if_neg goesOn]
                    cases letter : InlineFlag.ofLetter? c with
                    | none =>
                        simp only [letter] at rest
                        cases rest
                    | some next =>
                        simp only [letter] at rest ⊢
                        obtain ⟨behindSound, shorter, done⟩ :=
                          inductionHypothesis afterSound le' rest
                        exact ⟨behindSound, by omega, done⟩

theorem flagsOff_onto
    (notEscape : post ≠ ['\\'])
    {steps more : Nat}
    {before off : List InlineFlag}
    {fault : Fault}
    {input behind : Input}
    (sound : input.Sound)
    (le : steps ≤ more)
    (read : flagsOff steps before fault input = .ok (off, behind)) :
    behind.Sound ∧ behind.rest.length ≤ input.rest.length ∧
      flagsOff more before fault (input.onto post shift) =
        .ok (off, behind.onto post shift) := by
  induction steps generalizing more before fault input with
  | zero => cases read
  | succ steps inductionHypothesis =>
      obtain ⟨more, rfl⟩ : ∃ k, more = k + 1 := ⟨more - 1, by omega⟩
      have le' : steps ≤ more := by omega
      unfold flagsOff at read ⊢
      obtain ⟨next, taken, rest⟩ := bind_eq_ok.mp read
      cases next with
      | none => cases rest
      | some step =>
          obtain ⟨token, after⟩ := step
          obtain ⟨afterSound, takenOnto⟩ := Input.next?_onto shift notEscape sound taken
          have short := Input.length_next? taken
          simp only [takenOnto, bind, Except.bind]
          cases token with
          | escaped c => cases rest
          | plain c =>
              simp only at rest ⊢
              split at rest
              · rename_i closes
                cases rest
                rw [if_pos closes]
                exact ⟨afterSound, Nat.le_of_lt short, rfl⟩
              · rename_i goesOn
                rw [if_neg goesOn]
                cases letter : InlineFlag.ofLetter? c with
                | none =>
                    simp only [letter] at rest
                    cases rest
                | some next =>
                    simp only [letter] at rest ⊢
                    split at rest
                    · cases rest
                    · rename_i allowed
                      rw [if_neg allowed]
                      obtain ⟨behindSound, shorter, done⟩ :=
                        inductionHypothesis afterSound le' rest
                      exact ⟨behindSound, by omega, done⟩

/-- The flags that a list sets, with the character that ends them. -/
def flagsSet (bound : Nat) (first : Char) (input : Input) :
    Except Error (List InlineFlag × Char × Input) :=
  match InlineFlag.ofLetter? first with
  | some flag => flagsOn bound [] flag input
  | none => .ok ([], '-', input)

/-- The flags that a list clears. -/
def flagsCleared (bound : Nat) (closing : Char) (input : Input) :
    Except Error (List InlineFlag × Input) :=
  if closing == '-' then flagsOff bound [] .missingFlag input else .ok ([], input)

/-- The list of flags that ends in a character. -/
def flagsEnd (bound : Nat) (on : List InlineFlag) (closing : Char) (input : Input) :
    Except Error (FlagList × Input) :=
  if closing == ')' then
    .ok (.everywhere on, input)
  else if on.contains .template then
    Fault.globalFlagOn.at (input.pos - 1)
  else do
    let (off, last) ← flagsCleared bound closing input
    if off.contains .template then
      Fault.globalFlagOff.at (last.pos - 1)
    else if on.any off.contains then
      Fault.flagOnAndOff.at (last.pos - 1)
    else
      .ok (.scoped on off, last)

theorem flagList_eq
    (first : Char)
    (input : Input) :
    flagList first input =
      flagsSet (input.rest.length + 1) first input >>= fun set =>
        flagsEnd (input.rest.length + 1) set.1 set.2.1 set.2.2 := by
  unfold flagList flagsSet flagsEnd flagsCleared
  simp only [bind, Except.bind]
  cases InlineFlag.ofLetter? first with
  | none =>
      simp only
      cases flagsOff (input.rest.length + 1) [] .missingFlag input <;> rfl
  | some flag =>
      simp only
      cases flagsOn (input.rest.length + 1) [] flag input with
      | error error => rfl
      | ok set =>
          obtain ⟨on, closing, behind⟩ := set
          simp only
          by_cases clears : (closing == '-') = true
          · simp only [if_pos clears]
          · simp only [if_neg clears]

theorem flagsSet_onto
    (notEscape : post ≠ ['\\'])
    {bound more : Nat}
    {first closing : Char}
    {on : List InlineFlag}
    {input behind : Input}
    (sound : input.Sound)
    (le : bound ≤ more)
    (read : flagsSet bound first input = .ok (on, closing, behind)) :
    behind.Sound ∧ behind.rest.length ≤ input.rest.length ∧
      flagsSet more first (input.onto post shift) = .ok (on, closing, behind.onto post shift) := by
  unfold flagsSet at read ⊢
  cases letter : InlineFlag.ofLetter? first with
  | none =>
      simp only [letter] at read
      cases read
      exact ⟨sound, Nat.le_refl _, rfl⟩
  | some flag =>
      simp only [letter] at read
      exact flagsOn_onto shift notEscape sound le read

theorem flagsCleared_onto
    (notEscape : post ≠ ['\\'])
    {bound more : Nat}
    {closing : Char}
    {off : List InlineFlag}
    {input behind : Input}
    (sound : input.Sound)
    (le : bound ≤ more)
    (read : flagsCleared bound closing input = .ok (off, behind)) :
    behind.Sound ∧ behind.rest.length ≤ input.rest.length ∧
      flagsCleared more closing (input.onto post shift) = .ok (off, behind.onto post shift) := by
  unfold flagsCleared at read ⊢
  split at read
  · rename_i clears
    rw [if_pos clears]
    exact flagsOff_onto shift notEscape sound le read
  · rename_i sets
    cases read
    rw [if_neg sets]
    exact ⟨sound, Nat.le_refl _, rfl⟩

theorem stable_flagList
    (notEscape : post ≠ ['\\'])
    (first : Char) :
    Stable post shift (flagList first) := by
  intro input value behind sound read
  have longer : input.rest.length + 1 ≤ (input.onto post shift).rest.length + 1 := by
    simp [Input.onto]
  rw [flagList_eq] at read ⊢
  obtain ⟨⟨on, closing, after⟩, set, rest⟩ := bind_eq_ok.mp read
  obtain ⟨afterSound, short, setOnto⟩ := flagsSet_onto shift notEscape sound longer set
  rw [setOnto]
  simp only [bind, Except.bind]
  unfold flagsEnd at rest ⊢
  split at rest
  · rename_i everywhere
    cases rest
    rw [if_pos everywhere]
    exact ⟨afterSound, short, rfl⟩
  · rename_i inGroup
    rw [if_neg inGroup]
    split at rest
    · cases rest
    · rename_i noTemplate
      rw [if_neg noTemplate]
      obtain ⟨⟨off, last⟩, cleared, done⟩ := bind_eq_ok.mp rest
      obtain ⟨lastSound, shorter, clearedOnto⟩ :=
        flagsCleared_onto shift notEscape afterSound longer cleared
      rw [clearedOnto]
      simp only [bind, Except.bind] at done ⊢
      split at done
      · cases done
      · rename_i noTemplateOff
        rw [if_neg noTemplateOff]
        split at done
        · cases done
        · rename_i apart
          cases done
          rw [if_neg apart]
          exact ⟨lastSound, Nat.le_trans shorter short, rfl⟩

theorem skipPast_onto
    (quiet : Quiet post)
    {c : Char}
    {steps more : Nat}
    {input behind : Input}
    (sound : input.Sound)
    (le : steps ≤ more)
    (read : input.skipPast c steps = .ok (some behind)) :
    behind.Sound ∧ behind.rest.length ≤ input.rest.length ∧
      (input.onto post shift).skipPast c more = .ok (some (behind.onto post shift)) := by
  induction steps generalizing more input with
  | zero => cases read
  | succ steps inductionHypothesis =>
      obtain ⟨more, rfl⟩ : ∃ k, more = k + 1 := ⟨more - 1, by omega⟩
      have le' : steps ≤ more := by omega
      unfold Input.skipPast at read ⊢
      cases next : input.next? with
      | error error => simp [next] at read
      | ok taken =>
          cases taken with
          | none => simp [next] at read
          | some step =>
              obtain ⟨token, after⟩ := step
              obtain ⟨afterSound, onto⟩ := Input.next?_onto shift quiet.notEscape sound next
              have short := Input.length_next? next
              simp only [next, onto] at read ⊢
              split at read
              · rename_i closes
                cases read
                rw [if_pos closes]
                exact ⟨afterSound, Nat.le_of_lt short, rfl⟩
              · rename_i goesOn
                rw [if_neg goesOn]
                obtain ⟨behindSound, shorter, done⟩ := inductionHypothesis afterSound le' read
                exact ⟨behindSound, by omega, done⟩

end Readers

end NoticeScan.Regex
