import NoticeScan.Proofs.Locality

/-!
# What reading an expression does

A step of reading takes a token, learns from the text what is asked for, and does that to the
open groups. The two are told apart here: what is asked for depends on the text and on the flags
alone, what is done depends on the open groups alone.
-/

namespace NoticeScan.Regex

/-- What the text asks for. -/
inductive Action where
  /-- Nothing: a comment or layout. -/
  | skip
  | item (item : Item)
  | repeating (low high : Nat) (greed : Greed)
  /-- A group that captures nothing. -/
  | opening (opener : Opener) (flags : Flags)
  | capture (name : Option (List Char))
  | look (behind negated : Bool)
  /-- The text of a group, by a number that is `width` characters long. -/
  | numbered (index width : Nat)
  | named (name : List Char)
  | branch (name : List Char)
  /-- Flags for the whole expression. -/
  | everywhere (on : List InlineFlag)
  | bar
  | close
  deriving Repr, DecidableEq

/-! ## Learning what is asked for -/

/-- What an escape asks for. -/
def lexEscape (flags : Flags) (c : Char) (input : Input) : Except Error (Action × Input) := do
  match ← outerEscape c input with
  | (.point x, behind) => .ok (.item (.ofPoint flags false x), behind)
  | (.category kind negated, behind) =>
      .ok (.item (.ofMembers flags false [.category kind negated]), behind)
  | (.anchor letter, behind) =>
      .ok (.item (.ofAnchor letter (Reading.escapedAnchor flags letter)), behind)
  | (.group index, behind) => .ok (.numbered index (behind.pos - input.pos + 1), behind)

/-- What a class asks for. -/
def lexClass (flags : Flags) (input : Input) : Except Error (Action × Input) := do
  let (negated, members, behind) ← classBody input
  .ok (.item (.ofClass flags negated members), behind)

/-- A repeat with given bounds. -/
def lexBounds (low high : Nat) (input : Input) : Except Error (Action × Input) := do
  let (greed, behind) ← Reading.readGreed input
  .ok (.repeating low high greed, behind)

/-- What a character that may repeat asks for. -/
def lexRepeat (flags : Flags) (c : Char) (input : Input) : Except Error (Action × Input) :=
  if c == '?' then
    lexBounds 0 1 input
  else if c == '*' then
    lexBounds 0 endless input
  else if c == '+' then
    lexBounds 1 endless input
  else if Reading.closesAtOnce input then
    .ok (.item (.ofPoint flags false c.toNat), input)
  else do
    match ← Reading.bracedBounds input with
    | some (bounds, behind) => lexBounds bounds.low bounds.high behind
    | none => .ok (.item (.ofPoint flags false c.toNat), input)

/-- What stands behind `(?P`. -/
def lexNamed (input : Input) : Except Error (Action × Input) := do
  match ← input.next? with
  | none => Fault.unexpectedEnd.at input.pos
  | some (.plain '<', behind) =>
      let (name, inside) ← Reading.readName behind '>'
      .ok (.capture (some name), inside)
  | some (.plain '=', behind) =>
      let (name, after) ← Reading.readName behind ')'
      .ok (.named name, after)
  | some (token, behind) =>
      (Fault.unknownExtension ('P' :: token.text)).at (behind.pos - (token.width + 2))

/-- What stands behind `(?<`. -/
def lexBehind (input : Input) : Except Error (Action × Input) := do
  match ← input.next? with
  | none => Fault.unexpectedEnd.at input.pos
  | some (.plain '=', behind) => .ok (.look true false, behind)
  | some (.plain '!', behind) => .ok (.look true true, behind)
  | some (token, behind) =>
      (Fault.unknownExtension ('<' :: token.text)).at (behind.pos - (token.width + 2))

/-- What a list of flags asks for. -/
def lexFlags (flags : Flags) (first : Char) (input : Input) :
    Except Error (Action × Input) := do
  match ← flagList first input with
  | (.everywhere on, behind) => .ok (.everywhere on, behind)
  | (.scoped on off, behind) => .ok (.opening .flagged (flags.change on off), behind)

/-- What stands behind `(?`, by the first token of it. -/
def lexExtension (flags : Flags) (token : Token) (behind : Input) :
    Except Error (Action × Input) :=
  match token with
  | .plain 'P' => lexNamed behind
  | .plain ':' => .ok (.opening .plain flags, behind)
  | .plain '>' => .ok (.opening .atomic flags, behind)
  | .plain '=' => .ok (.look false false, behind)
  | .plain '!' => .ok (.look false true, behind)
  | .plain '<' => lexBehind behind
  | .plain '(' => do
      let (name, after) ← behind.takeUntil ')' "group name"
      .ok (.branch name, after)
  | .plain '#' => do
      match ← behind.skipPast ')' (behind.rest.length + 1) with
      | some last => .ok (.skip, last)
      | none => Fault.unterminatedComment.at behind.pos
  | .plain c =>
      if c == '-' || (InlineFlag.ofLetter? c).isSome then
        lexFlags flags c behind
      else
        (Fault.unknownExtension token.text).at (behind.pos - (token.width + 1))
  | .escaped _ => (Fault.unknownExtension token.text).at (behind.pos - (token.width + 1))

/-- What an opening parenthesis asks for. -/
def lexOpening (flags : Flags) (input : Input) : Except Error (Action × Input) := do
  match ← input.take? '?' with
  | none => .ok (.capture none, input)
  | some inside =>
      match ← inside.next? with
      | none => Fault.unexpectedEnd.at inside.pos
      | some (token, behind) => lexExtension flags token behind

/-- The end of a comment of a verbose expression. -/
def lexComment (input : Input) : Except Error (Action × Input) := do
  match ← input.skipPast '\n' (input.rest.length + 1) with
  | some behind => .ok (.skip, behind)
  | none => .ok (.skip, ⟨[], input.pos + input.rest.length⟩)

/-- What a sign asks for that is neither layout nor the start of a comment. -/
def lexSign (flags : Flags) (c : Char) (input : Input) : Except Error (Action × Input) :=
  match c with
  | '(' => lexOpening flags input
  | '[' => lexClass flags input
  | '.' => .ok (.item (.dot flags), input)
  | '^' =>
      let anchor : Anchor := if flags.multiLine then .lineStart else .textStart
      .ok (.item (.ofAnchor c anchor), input)
  | '$' =>
      let anchor : Anchor := if flags.multiLine then .lineEnd else .lastLineEnd
      .ok (.item (.ofAnchor c anchor), input)
  | _ =>
      if c == '*' || c == '+' || c == '?' || c == '\x7b' then lexRepeat flags c input
      else .ok (.item (.ofPoint flags false c.toNat), input)

/-- What a character that is no escape asks for. -/
def lexPlain (flags : Flags) (c : Char) (input : Input) : Except Error (Action × Input) :=
  if flags.verbose && Reading.isLayout c then
    .ok (.skip, input)
  else if flags.verbose && c == '#' then
    lexComment input
  else
    lexSign flags c input

/-- What a token asks for, with the input behind it. -/
def lex (flags : Flags) (token : Token) (input : Input) : Except Error (Action × Input) :=
  match token with
  | .plain ')' => .ok (.close, input)
  | .plain '|' => .ok (.bar, input)
  | .escaped c => lexEscape flags c input
  | .plain c => lexPlain flags c input

/-! ## Texts in longer texts -/

/-- Whether an action takes the name of a group from the text. -/
def Action.takesName : Action → Bool
  | .capture (some _) | .named _ | .branch _ => true
  | _ => false

section Onto

variable {post : List Char} (shift : Nat) {flags : Flags} {input behind : Input}
  {action : Action}

theorem stable_lexEscape
    (quiet : Quiet post)
    (flags : Flags)
    (c : Char) :
    Stable post shift (lexEscape flags c) := by
  intro input action behind sound read
  unfold lexEscape at read ⊢
  obtain ⟨⟨escape, last⟩, escaped, rest⟩ := bind_eq_ok.mp read
  obtain ⟨lastSound, shorter, onto⟩ :=
    stable_outerEscape shift quiet c input escape last sound escaped
  rw [onto]
  simp only [bind, Except.bind]
  cases escape with
  | point x =>
      cases rest
      exact ⟨lastSound, shorter, rfl⟩
  | category kind negated =>
      cases rest
      exact ⟨lastSound, shorter, rfl⟩
  | anchor letter =>
      cases rest
      exact ⟨lastSound, shorter, rfl⟩
  | group index =>
      cases rest
      refine ⟨lastSound, shorter, ?_⟩
      simp only [Input.onto, Nat.add_sub_add_right]

theorem stable_lexClass
    (quiet : Quiet post)
    (flags : Flags) :
    Stable post shift (lexClass flags) := by
  intro input action behind sound read
  unfold lexClass at read ⊢
  obtain ⟨⟨negated, members, last⟩, body, rest⟩ := bind_eq_ok.mp read
  cases rest
  obtain ⟨lastSound, shorter, onto⟩ := classBody_onto shift quiet sound body
  exact ⟨lastSound, shorter, bind_eq_ok.mpr ⟨_, onto, rfl⟩⟩

theorem stable_lexBounds
    (quiet : Quiet post)
    (low high : Nat) :
    Stable post shift (lexBounds low high) := by
  intro input action behind sound read
  unfold lexBounds at read ⊢
  obtain ⟨⟨greed, last⟩, greedy, rest⟩ := bind_eq_ok.mp read
  cases rest
  obtain ⟨lastSound, shorter, onto⟩ :=
    stable_readGreed shift quiet input greed behind sound greedy
  exact ⟨lastSound, shorter, bind_eq_ok.mpr ⟨_, onto, rfl⟩⟩

theorem closesAtOnce_onto
    (quiet : Quiet post)
    (sound : input.Sound) :
    Reading.closesAtOnce (input.onto post shift) = Reading.closesAtOnce input := by
  unfold Reading.closesAtOnce
  by_cases ended : input.rest = []
  · have nothing : input.peek? = none := by
      unfold Input.peek?
      rw [ended]
    rw [nothing]
    simpa using Input.peek?_quiet shift quiet (by decide) ended
  · rw [Input.peek?_onto shift post sound ended]

theorem stable_lexRepeat
    (quiet : Quiet post)
    (flags : Flags)
    (c : Char) :
    Stable post shift (lexRepeat flags c) := by
  intro input action behind sound read
  unfold lexRepeat at read ⊢
  split at read
  · rename_i question
    rw [if_pos question]
    exact stable_lexBounds shift quiet 0 1 input action behind sound read
  · rename_i noQuestion
    rw [if_neg noQuestion]
    split at read
    · rename_i star
      rw [if_pos star]
      exact stable_lexBounds shift quiet 0 endless input action behind sound read
    · rename_i noStar
      rw [if_neg noStar]
      split at read
      · rename_i plus
        rw [if_pos plus]
        exact stable_lexBounds shift quiet 1 endless input action behind sound read
      · rename_i noPlus
        rw [if_neg noPlus, closesAtOnce_onto shift quiet sound]
        split at read
        · rename_i closes
          rw [if_pos closes]
          cases read
          exact ⟨sound, Nat.le_refl _, rfl⟩
        · rename_i opens
          rw [if_neg opens]
          obtain ⟨found, braced, rest⟩ := bind_eq_ok.mp read
          obtain ⟨ends, onto⟩ := bracedBounds_onto shift quiet sound braced
          rw [onto]
          simp only [bind, Except.bind]
          cases found with
          | none =>
              cases rest
              exact ⟨sound, Nat.le_refl _, rfl⟩
          | some found =>
              obtain ⟨bounds, last⟩ := found
              obtain ⟨lastSound, shorter⟩ := ends bounds last rfl
              obtain ⟨behindSound, shortest, done⟩ :=
                stable_lexBounds shift quiet bounds.low bounds.high last action behind lastSound
                  rest
              exact ⟨behindSound, Nat.le_trans shortest shorter, done⟩

theorem stable_lexBehind
    (quiet : Quiet post) :
    Stable post shift lexBehind := by
  intro input action behind sound read
  unfold lexBehind at read ⊢
  obtain ⟨taken, next, rest⟩ := bind_eq_ok.mp read
  split at rest
  · cases rest
  · cases rest
    obtain ⟨behindSound, onto⟩ := Input.next?_onto shift quiet.notEscape sound next
    exact ⟨behindSound, Nat.le_of_lt (Input.length_next? next),
      bind_eq_ok.mpr ⟨_, onto, rfl⟩⟩
  · cases rest
    obtain ⟨behindSound, onto⟩ := Input.next?_onto shift quiet.notEscape sound next
    exact ⟨behindSound, Nat.le_of_lt (Input.length_next? next),
      bind_eq_ok.mpr ⟨_, onto, rfl⟩⟩
  · cases rest

theorem stable_lexFlags
    (quiet : Quiet post)
    (flags : Flags)
    (first : Char) :
    Stable post shift (lexFlags flags first) := by
  intro input action behind sound read
  unfold lexFlags at read ⊢
  obtain ⟨⟨list, last⟩, listed, rest⟩ := bind_eq_ok.mp read
  obtain ⟨lastSound, shorter, onto⟩ :=
    stable_flagList shift quiet.notEscape first input list last sound listed
  rw [onto]
  rcases list with ⟨on⟩ | ⟨on, off⟩
  · cases rest
    exact ⟨lastSound, shorter, rfl⟩
  · cases rest
    exact ⟨lastSound, shorter, rfl⟩

theorem lexNamed_takesName
    (read : lexNamed input = .ok (action, behind)) :
    action.takesName = true := by
  unfold lexNamed at read
  obtain ⟨taken, _, rest⟩ := bind_eq_ok.mp read
  split at rest
  · cases rest
  · obtain ⟨⟨name, inside⟩, _, rest⟩ := bind_eq_ok.mp rest
    cases rest
    rfl
  · obtain ⟨⟨name, inside⟩, _, rest⟩ := bind_eq_ok.mp rest
    cases rest
    rfl
  · cases rest

theorem lexExtension_onto
    (quiet : Quiet post)
    {token : Token}
    (sound : input.Sound)
    (nameless : action.takesName = false)
    (read : lexExtension flags token input = .ok (action, behind)) :
    behind.Sound ∧ behind.rest.length ≤ input.rest.length ∧
      lexExtension flags token (input.onto post shift) = .ok (action, behind.onto post shift) := by
  unfold lexExtension at read
  split at read
  · rw [lexNamed_takesName read] at nameless
    cases nameless
  · cases read
    exact ⟨sound, Nat.le_refl _, rfl⟩
  · cases read
    exact ⟨sound, Nat.le_refl _, rfl⟩
  · cases read
    exact ⟨sound, Nat.le_refl _, rfl⟩
  · cases read
    exact ⟨sound, Nat.le_refl _, rfl⟩
  · exact stable_lexBehind shift quiet input action behind sound read
  · obtain ⟨⟨name, last⟩, _, rest⟩ := bind_eq_ok.mp read
    cases rest
    cases nameless
  · obtain ⟨found, skipped, rest⟩ := bind_eq_ok.mp read
    cases found with
    | none => cases rest
    | some last =>
        cases rest
        have longer : input.rest.length + 1 ≤ (input.onto post shift).rest.length + 1 := by
          simp [Input.onto]
        obtain ⟨behindSound, shorter, onto⟩ := skipPast_onto shift quiet sound longer skipped
        exact ⟨behindSound, shorter, bind_eq_ok.mpr ⟨_, onto, rfl⟩⟩
  · split at read
    · rename_i flag
      obtain ⟨behindSound, shorter, onto⟩ :=
        stable_lexFlags shift quiet flags _ input action behind sound read
      refine ⟨behindSound, shorter, ?_⟩
      unfold lexExtension
      split
      case h_9 =>
        rename_i same
        cases same
        rw [if_pos flag]
        exact onto
      all_goals simp_all
    · cases read
  · cases read

theorem lexOpening_onto
    (quiet : Quiet post)
    (sound : input.Sound)
    (nameless : action.takesName = false)
    (read : lexOpening flags input = .ok (action, behind)) :
    behind.Sound ∧ behind.rest.length ≤ input.rest.length ∧
      lexOpening flags (input.onto post shift) = .ok (action, behind.onto post shift) := by
  unfold lexOpening at read ⊢
  obtain ⟨question, taken, rest⟩ := bind_eq_ok.mp read
  cases question with
  | none =>
      cases rest
      have onto := Input.take?_none_onto shift quiet sound (fun _ => by decide) taken
      exact ⟨sound, Nat.le_refl _, bind_eq_ok.mpr ⟨none, onto, rfl⟩⟩
  | some inside =>
      obtain ⟨insideSound, onto⟩ := Input.take?_onto shift quiet.notEscape sound taken
      have short := Input.length_take? taken
      obtain ⟨first, next, rest⟩ := bind_eq_ok.mp rest
      cases first with
      | none => cases rest
      | some step =>
          obtain ⟨token, after⟩ := step
          obtain ⟨afterSound, nextOnto⟩ := Input.next?_onto shift quiet.notEscape insideSound next
          have shorter := Input.length_next? next
          obtain ⟨behindSound, shortest, done⟩ :=
            lexExtension_onto shift quiet afterSound nameless rest
          refine ⟨behindSound, by omega, ?_⟩
          exact bind_eq_ok.mpr ⟨_, onto, bind_eq_ok.mpr ⟨_, nextOnto, done⟩⟩

theorem lexComment_onto
    (quiet : Quiet post)
    (sound : input.Sound)
    (more : behind.rest ≠ [])
    (read : lexComment input = .ok (action, behind)) :
    behind.Sound ∧ behind.rest.length ≤ input.rest.length ∧
      lexComment (input.onto post shift) = .ok (action, behind.onto post shift) := by
  unfold lexComment at read ⊢
  obtain ⟨found, skipped, rest⟩ := bind_eq_ok.mp read
  cases found with
  | none =>
      cases rest
      exact absurd rfl more
  | some last =>
      cases rest
      have longer : input.rest.length + 1 ≤ (input.onto post shift).rest.length + 1 := by
        simp [Input.onto]
      obtain ⟨behindSound, shorter, onto⟩ := skipPast_onto shift quiet sound longer skipped
      exact ⟨behindSound, shorter, bind_eq_ok.mpr ⟨_, onto, rfl⟩⟩

theorem lexComment_skip
    (read : lexComment input = .ok (action, behind)) :
    action = .skip := by
  unfold lexComment at read
  obtain ⟨found, _, rest⟩ := bind_eq_ok.mp read
  cases found with
  | none =>
      cases rest
      rfl
  | some last =>
      cases rest
      rfl

theorem lexPlain_onto
    (quiet : Quiet post)
    {c : Char}
    (sound : input.Sound)
    (nameless : action.takesName = false)
    (more : action = .skip → flags.verbose = true → behind.rest ≠ [])
    (read : lexPlain flags c input = .ok (action, behind)) :
    behind.Sound ∧ behind.rest.length ≤ input.rest.length ∧
      lexPlain flags c (input.onto post shift) = .ok (action, behind.onto post shift) := by
  unfold lexPlain at read ⊢
  split at read
  · rename_i layout
    cases read
    rw [if_pos layout]
    exact ⟨sound, Nat.le_refl _, rfl⟩
  · rename_i noLayout
    rw [if_neg noLayout]
    split at read
    · rename_i comment
      rw [if_pos comment]
      have verbose : flags.verbose = true := (Bool.and_eq_true_iff.mp comment).1
      have further := more (lexComment_skip read) verbose
      exact lexComment_onto shift quiet sound further read
    · rename_i noComment
      rw [if_neg noComment]
      unfold lexSign at read ⊢
      split at read
      · exact lexOpening_onto shift quiet sound nameless read
      · exact stable_lexClass shift quiet flags input action behind sound read
      · cases read
        exact ⟨sound, Nat.le_refl _, rfl⟩
      · cases read
        exact ⟨sound, Nat.le_refl _, rfl⟩
      · cases read
        exact ⟨sound, Nat.le_refl _, rfl⟩
      · split
        · rename_i repeats
          rw [if_pos repeats] at read
          exact stable_lexRepeat shift quiet flags c input action behind sound read
        · rename_i plain
          rw [if_neg plain] at read
          cases read
          exact ⟨sound, Nat.le_refl _, rfl⟩

/-- A token asks for the same when a text follows, unless a name or a comment goes on. -/
theorem lex_onto
    (quiet : Quiet post)
    {token : Token}
    (sound : input.Sound)
    (nameless : action.takesName = false)
    (more : action = .skip → flags.verbose = true → behind.rest ≠ [])
    (read : lex flags token input = .ok (action, behind)) :
    behind.Sound ∧ behind.rest.length ≤ input.rest.length ∧
      lex flags token (input.onto post shift) = .ok (action, behind.onto post shift) := by
  unfold lex at read ⊢
  split at read
  · cases read
    exact ⟨sound, Nat.le_refl _, rfl⟩
  · cases read
    exact ⟨sound, Nat.le_refl _, rfl⟩
  · exact stable_lexEscape shift quiet flags _ input action behind sound read
  · exact lexPlain_onto shift quiet sound nameless more read

end Onto

/-! ## Doing it -/

/-- What is done to the open groups. `mark` is where the text asks for it, `behind` what is to be
read afterwards. -/
inductive Acts (reading : Reading) (mark : Nat) (behind : Input) : Action → Reading → Prop where
  | skip : Acts reading mark behind .skip { reading with input := behind }
  | item (item : Item) : Acts reading mark behind (.item item) (reading.push behind item)
  | repeating (low high : Nat) (greed : Greed) (entry : Entry) (before : List Entry) (place : Nat)
      (body : Part) :
      reading.level.entries = entry :: before → entry.repeatable place = .ok body →
      Acts reading mark behind (.repeating low high greed)
        { reading with
          input := behind
          level :=
            { reading.level with
              entries :=
                .single (Item.repeating reading.flags greed low high body) :: before } }
  | opening (opener : Opener) (flags : Flags) :
      opener = .plain ∨ opener = .flagged ∨ opener = .atomic →
      (opener = .plain → flags = reading.flags) →
      Acts reading mark behind (.opening opener flags) (reading.enter behind opener mark flags)
  | capture (name : Option (List Char)) (next : Reading) :
      reading.enterCapture behind mark name = .ok next →
      Acts reading mark behind (.capture name) next
  | look (isBehind negated : Bool) :
      Acts reading mark behind (.look isBehind negated)
        (reading.enterLook behind mark isBehind negated)
  | numbered (index width : Nat) (next : Reading) :
      reading.pushNumbered behind index width = .ok next →
      Acts reading mark behind (.numbered index width) next
  | named (name : List Char) (index : Nat) (next : Reading) :
      reading.groups.names.lookup name = some index →
      reading.pushAgain behind index = .ok next →
      Acts reading mark behind (.named name) next
  | branch (name : List Char) (place index : Nat) (mentioned : List (Nat × Nat)) :
      reading.branchIndex name place = .ok (index, mentioned) →
      Acts reading mark behind (.branch name)
        ({ reading with mentioned := mentioned }.enter behind (.branch index) mark reading.flags)
  | everywhere (on : List InlineFlag) :
      on ≠ [] → reading.level.opener = .whole → reading.level.branches = [] →
      reading.level.entries = [] →
      Acts reading mark behind (.everywhere on)
        { reading with
          input := behind
          level := { reading.level with flags := reading.level.flags.change on [] }
          everywhere := on ++ reading.everywhere }
  | bar :
      (∀ index, reading.level.opener = .branch index → reading.level.branches = []) →
      Acts reading mark behind .bar (reading.nextBranch behind)
  | close (level : Level) (outer : List Level) :
      reading.outer = level :: outer →
      Acts reading mark behind .close (reading.closeGroup behind level outer)

namespace Reading

section Results

variable {reading next : Reading} {input : Input} {index width : Nat}

/-- A capturing group that is opened is added to the groups met so far. -/
theorem enterCapture_eq
    {start : Nat}
    {name : Option (List Char)}
    (entered : reading.enterCapture input start name = .ok next) :
    ∃ groups : Groups, groups.widths.size = reading.groups.widths.size + 1 ∧
      next = { reading with groups := groups }.enter input
        (.capture reading.groups.widths.size) start reading.flags := by
  unfold enterCapture at entered
  cases name with
  | none =>
      cases entered
      exact ⟨_, Array.size_push _, rfl⟩
  | some name =>
      dsimp only at entered
      split at entered
      · cases entered
      · cases entered
        exact ⟨_, Array.size_push _, rfl⟩

/-- A reference to a group adds an item. -/
theorem pushAgain_eq
    (read : reading.pushAgain input index = .ok next) :
    ∃ item, next = reading.push input item := by
  obtain ⟨_, _, rest⟩ := bind_eq_ok.mp read
  cases rest
  exact ⟨_, rfl⟩

theorem pushNumbered_eq
    (read : reading.pushNumbered input index width = .ok next) :
    ∃ item, next = reading.push input item := by
  unfold pushNumbered at read
  split at read
  · cases read
  · split at read
    · cases read
    · exact pushAgain_eq read

/-- The number of a group is mentioned once. -/
theorem branchIndex_eq
    {name : List Char}
    {place : Nat}
    {mentioned : List (Nat × Nat)}
    (found : reading.branchIndex name place = .ok (index, mentioned)) :
    mentioned = reading.mentioned ∨
      index ≠ 0 ∧ mentioned = reading.mentioned ++ [(index, place)] := by
  unfold branchIndex at found
  split at found
  · split at found
    · cases found
      exact Or.inl rfl
    · cases found
  · split at found
    · cases found
    · cases found
    · rename_i positive _
      split at found
      · cases found
      · split at found
        · cases found
          exact Or.inl rfl
        · cases found
          exact Or.inr ⟨positive, rfl⟩

/-- Closing a group leaves the number of groups as it is. -/
theorem size_closeGroup
    (level : Level)
    (outer : List Level) :
    (reading.closeGroup input level outer).groups.widths.size = reading.groups.widths.size := by
  unfold closeGroup add
  dsimp only
  split
  · exact Array.size_setIfInBounds
  · rfl

end Results

/-- A part of a step does what the text asks for. -/
def Obeys (reading : Reading) (mark : Nat) (asked : Except Error (Action × Input))
    (next : Reading) : Prop :=
  ∃ action behind, asked = .ok (action, behind) ∧ Acts reading mark behind action next

variable {reading next : Reading} {mark : Nat} {input : Input}

theorem readEscape_obeys
    {c : Char}
    (done : reading.readEscape c input = .ok next) :
    reading.Obeys mark (lexEscape reading.flags c input) next := by
  unfold readEscape at done
  obtain ⟨⟨escape, behind⟩, read, rest⟩ := bind_eq_ok.mp done
  cases escape with
  | point x =>
      cases rest
      exact ⟨_, behind, bind_eq_ok.mpr ⟨_, read, rfl⟩, .item _⟩
  | category kind negated =>
      cases rest
      exact ⟨_, behind, bind_eq_ok.mpr ⟨_, read, rfl⟩, .item _⟩
  | anchor letter =>
      cases rest
      exact ⟨_, behind, bind_eq_ok.mpr ⟨_, read, rfl⟩, .item _⟩
  | group index =>
      exact ⟨_, behind, bind_eq_ok.mpr ⟨_, read, rfl⟩, .numbered index _ next rest⟩

theorem readClass_obeys
    (done : reading.readClass input = .ok next) :
    reading.Obeys mark (lexClass reading.flags input) next := by
  unfold readClass at done
  obtain ⟨⟨negated, members, behind⟩, read, rest⟩ := bind_eq_ok.mp done
  cases rest
  exact ⟨_, behind, bind_eq_ok.mpr ⟨_, read, rfl⟩, .item _⟩

theorem repeatLast_obeys
    {bounds : Bounds}
    {place : Nat}
    (done : reading.repeatLast bounds place input = .ok next) :
    reading.Obeys mark (lexBounds bounds.low bounds.high input) next := by
  unfold repeatLast at done
  cases entries : reading.level.entries with
  | nil =>
      simp only [entries] at done
      cases done
  | cons entry before =>
      simp only [entries] at done
      obtain ⟨body, repeatable, rest⟩ := bind_eq_ok.mp done
      obtain ⟨⟨greed, behind⟩, read, rest⟩ := bind_eq_ok.mp rest
      cases rest
      exact ⟨_, behind, bind_eq_ok.mpr ⟨_, read, rfl⟩,
        .repeating bounds.low bounds.high greed entry before place body entries repeatable⟩

theorem readRepeat_obeys
    {c : Char}
    (done : reading.readRepeat c input = .ok next) :
    reading.Obeys mark (lexRepeat reading.flags c input) next := by
  unfold readRepeat at done
  unfold lexRepeat
  simp only at done
  split at done
  · rename_i question
    rw [if_pos question]
    exact repeatLast_obeys done
  · rename_i noQuestion
    rw [if_neg noQuestion]
    split at done
    · rename_i star
      rw [if_pos star]
      exact repeatLast_obeys done
    · rename_i noStar
      rw [if_neg noStar]
      split at done
      · rename_i plus
        rw [if_pos plus]
        exact repeatLast_obeys done
      · rename_i noPlus
        rw [if_neg noPlus]
        split at done
        · rename_i closes
          rw [if_pos closes]
          cases done
          exact ⟨_, input, rfl, .item _⟩
        · rename_i opens
          rw [if_neg opens]
          obtain ⟨found, read, rest⟩ := bind_eq_ok.mp done
          cases found with
          | none =>
              cases rest
              exact ⟨_, input, bind_eq_ok.mpr ⟨none, read, rfl⟩, .item _⟩
          | some found =>
              obtain ⟨bounds, behind⟩ := found
              have obeys : reading.Obeys mark (lexBounds bounds.low bounds.high behind) next :=
                repeatLast_obeys rest
              obtain ⟨action, last, asked, acts⟩ := obeys
              exact ⟨action, last, bind_eq_ok.mpr ⟨_, read, asked⟩, acts⟩

theorem readNamedAgain_obeys
    (done : reading.readNamedAgain input = .ok next) :
    reading.Obeys mark
      (readName input ')' >>= fun (name, after) => .ok (.named name, after)) next := by
  unfold readNamedAgain at done
  obtain ⟨⟨name, behind⟩, read, rest⟩ := bind_eq_ok.mp done
  simp only at rest
  cases known : reading.groups.names.lookup name with
  | none =>
      simp only [known] at rest
      cases rest
  | some index =>
      simp only [known] at rest
      split at rest
      · cases rest
      · exact ⟨.named name, behind, bind_eq_ok.mpr ⟨_, read, rfl⟩,
          .named name index next known rest⟩

theorem readNamed_obeys
    (done : reading.readNamed mark input = .ok next) :
    reading.Obeys mark (lexNamed input) next := by
  unfold readNamed at done
  obtain ⟨taken, read, rest⟩ := bind_eq_ok.mp done
  unfold lexNamed
  rw [read]
  simp only [bind, Except.bind] at rest ⊢
  split at rest
  · cases rest
  · rename_i behind
    cases named : readName behind '>' with
    | error error => simp [named] at rest
    | ok result =>
        obtain ⟨name, inside⟩ := result
        simp only [named] at rest
        exact ⟨.capture (some name), inside, by simp [named], .capture (some name) next rest⟩
  · exact readNamedAgain_obeys rest
  · cases rest

theorem readBehind_obeys
    (done : reading.readBehind mark input = .ok next) :
    reading.Obeys mark (lexBehind input) next := by
  unfold readBehind at done
  obtain ⟨taken, read, rest⟩ := bind_eq_ok.mp done
  unfold lexBehind
  rw [read]
  simp only [bind, Except.bind] at rest ⊢
  split at rest
  · cases rest
  · cases rest
    exact ⟨.look true false, _, rfl, .look true false⟩
  · cases rest
    exact ⟨.look true true, _, rfl, .look true true⟩
  · cases rest

theorem readBranch_obeys
    (done : reading.readBranch mark input = .ok next) :
    reading.Obeys mark
      (input.takeUntil ')' "group name" >>= fun (name, after) => .ok (.branch name, after))
      next := by
  unfold readBranch at done
  obtain ⟨⟨name, behind⟩, read, rest⟩ := bind_eq_ok.mp done
  obtain ⟨⟨index, mentioned⟩, known, rest⟩ := bind_eq_ok.mp rest
  obtain ⟨_, _, rest⟩ := bind_eq_ok.mp rest
  cases rest
  exact ⟨.branch name, behind, bind_eq_ok.mpr ⟨_, read, rfl⟩,
    .branch name _ index mentioned known⟩

theorem flagsOn_ne_nil
    {steps : Nat}
    {before on : List InlineFlag}
    {flag : InlineFlag}
    {closing : Char}
    {behind : Input}
    (read : flagsOn steps before flag input = .ok (on, closing, behind)) :
    on ≠ [] := by
  induction steps generalizing before flag input with
  | zero => cases read
  | succ steps inductionHypothesis =>
      unfold flagsOn at read
      split at read
      · cases read
      · split at read
        · cases read
        · obtain ⟨taken, _, rest⟩ := bind_eq_ok.mp read
          split at rest
          · cases rest
          · split at rest
            · split at rest
              · cases rest
                exact List.cons_ne_nil _ _
              · split at rest
                · exact inductionHypothesis rest
                · unfold refuseFlag at rest
                  cases rest
            · unfold refuseFlag at rest
              cases rest

theorem flagList_everywhere
    {first : Char}
    {on : List InlineFlag}
    {behind : Input}
    (read : flagList first input = .ok (.everywhere on, behind)) :
    on ≠ [] := by
  rw [flagList_eq] at read
  obtain ⟨⟨set, closing, after⟩, read, rest⟩ := bind_eq_ok.mp read
  unfold flagsEnd at rest
  dsimp only at rest
  split at rest
  · rename_i closes
    cases rest
    unfold flagsSet at read
    split at read
    · exact flagsOn_ne_nil read
    · cases read
      cases closes
  · split at rest
    · cases rest
    · obtain ⟨_, _, rest⟩ := bind_eq_ok.mp rest
      split at rest
      · cases rest
      · split at rest
        · cases rest
        · cases rest

theorem readFlags_obeys
    {first : Char}
    (done : reading.readFlags first mark input = .ok next) :
    reading.Obeys mark (lexFlags reading.flags first input) next := by
  unfold readFlags at done
  obtain ⟨⟨list, behind⟩, read, rest⟩ := bind_eq_ok.mp done
  rcases list with ⟨on⟩ | ⟨on, off⟩
  · simp only at rest
    split at rest
    · rename_i atStart
      cases rest
      simp only [Bool.and_eq_true, decide_eq_true_eq, List.isEmpty_iff] at atStart
      obtain ⟨⟨whole, noBranches⟩, noEntries⟩ := atStart
      exact ⟨.everywhere on, behind, bind_eq_ok.mpr ⟨_, read, rfl⟩,
        .everywhere on (flagList_everywhere read) whole noBranches noEntries⟩
    · cases rest
  · cases rest
    exact ⟨_, behind, bind_eq_ok.mpr ⟨_, read, rfl⟩, .opening .flagged _ (by simp) (by simp)⟩

theorem lexExtension_flag
    {flags : Flags}
    {c : Char}
    (flag : (c == '-' || (InlineFlag.ofLetter? c).isSome) = true)
    (behind : Input) :
    lexExtension flags (.plain c) behind = lexFlags flags c behind := by
  unfold lexExtension
  split
  case h_9 =>
    rename_i same
    cases same
    rw [if_pos flag]
  case h_10 =>
    rename_i same
    cases same
  all_goals
    rename_i same
    cases same
    exact absurd flag (by decide)

theorem readExtension_obeys
    {token : Token}
    {behind : Input}
    (taken : input.next? = .ok (some (token, behind)))
    (done : reading.readExtension mark input = .ok next) :
    reading.Obeys mark (lexExtension reading.flags token behind) next := by
  unfold readExtension at done
  rw [taken] at done
  simp only [bind, Except.bind] at done
  split at done
  · exact readNamed_obeys done
  · cases done
    exact ⟨_, behind, rfl, .opening .plain _ (by simp) fun _ => rfl⟩
  · cases done
    exact ⟨_, behind, rfl, .opening .atomic _ (by simp) fun _ => rfl⟩
  · cases done
    exact ⟨_, behind, rfl, .look false false⟩
  · cases done
    exact ⟨_, behind, rfl, .look false true⟩
  · exact readBehind_obeys done
  · exact readBranch_obeys done
  · cases skipped : behind.skipPast ')' (behind.rest.length + 1) with
    | error error => simp [skipped] at done
    | ok found =>
        cases found with
        | none =>
            simp only [skipped] at done
            cases done
        | some last =>
            simp only [skipped] at done
            cases done
            exact ⟨.skip, last, bind_eq_ok.mpr ⟨_, skipped, rfl⟩, .skip⟩
  · split at done
    · rename_i flag
      rw [lexExtension_flag flag]
      exact readFlags_obeys done
    · cases done
  · cases done

theorem readOpening_obeys
    (start : mark = input.pos - 1)
    (done : reading.readOpening input = .ok next) :
    reading.Obeys mark (lexOpening reading.flags input) next := by
  unfold readOpening at done
  unfold lexOpening
  obtain ⟨question, taken, rest⟩ := bind_eq_ok.mp done
  rw [taken]
  subst start
  cases question with
  | none => exact ⟨.capture none, input, rfl, .capture none next rest⟩
  | some inside =>
      cases first : inside.next? with
      | error error =>
          simp only [readExtension, first, bind, Except.bind] at rest
          cases rest
      | ok found =>
          cases found with
          | none =>
              simp only [readExtension, first, bind, Except.bind] at rest
              cases rest
          | some step =>
              obtain ⟨token, behind⟩ := step
              simp only [bind, Except.bind, first]
              exact readExtension_obeys first rest

theorem skipComment_obeys
    (done : reading.skipComment input = .ok next) :
    reading.Obeys mark (lexComment input) next := by
  unfold skipComment at done
  obtain ⟨found, skipped, rest⟩ := bind_eq_ok.mp done
  cases found with
  | none =>
      cases rest
      exact ⟨.skip, _, bind_eq_ok.mpr ⟨none, skipped, rfl⟩, .skip⟩
  | some behind =>
      cases rest
      exact ⟨.skip, behind, bind_eq_ok.mpr ⟨some behind, skipped, rfl⟩, .skip⟩

theorem lexSign_other
    {flags : Flags}
    {c : Char}
    (other : c ∉ ['(', '[', '.', '^', '$'])
    (input : Input) :
    lexSign flags c input =
      if c == '*' || c == '+' || c == '?' || c == '\x7b' then lexRepeat flags c input
      else .ok (.item (.ofPoint flags false c.toNat), input) := by
  unfold lexSign
  split
  case h_6 => rfl
  all_goals simp at other

theorem readPlain_other
    {c : Char}
    (other : c ∉ ['(', '[', '.', '^', '$']) :
    reading.readPlain c input =
      if c == '*' || c == '+' || c == '?' || c == '\x7b' then reading.readRepeat c input
      else .ok (reading.push input (.ofPoint reading.flags false c.toNat)) := by
  unfold readPlain
  split
  case h_6 => rfl
  all_goals simp at other

theorem readPlain_obeys
    {c : Char}
    (start : mark = input.pos - 1)
    (layout : (reading.flags.verbose && isLayout c) = false)
    (comment : (reading.flags.verbose && c == '#') = false)
    (done : reading.readPlain c input = .ok next) :
    reading.Obeys mark (lexPlain reading.flags c input) next := by
  unfold lexPlain
  rw [layout, comment, if_neg Bool.false_ne_true, if_neg Bool.false_ne_true]
  by_cases sign : c ∈ ['(', '[', '.', '^', '$']
  · simp only [List.mem_cons, List.not_mem_nil, or_false] at sign
    rcases sign with rfl | rfl | rfl | rfl | rfl
    · exact readOpening_obeys start done
    · exact readClass_obeys done
    all_goals
      cases done
      exact ⟨_, input, rfl, .item _⟩
  · rw [readPlain_other sign] at done
    rw [lexSign_other sign]
    split at done
    · rename_i repeats
      rw [if_pos repeats]
      exact readRepeat_obeys done
    · rename_i plain
      rw [if_neg plain]
      cases done
      exact ⟨_, input, rfl, .item _⟩

theorem readBar_obeys
    {place : Nat}
    (done : reading.readBar place input = .ok next) :
    reading.Obeys mark (.ok (.bar, input)) next := by
  refine ⟨.bar, input, rfl, ?_⟩
  unfold readBar at done
  split at done
  · split at done
    · rename_i first
      cases done
      exact .bar fun _ _ => List.isEmpty_iff.mp first
    · cases done
  · rename_i other
    cases done
    exact .bar fun index same => absurd same (other index)

theorem readClosing_obeys
    {place : Nat}
    (done : reading.readClosing place input = .ok next) :
    reading.Obeys mark (.ok (.close, input)) next := by
  refine ⟨.close, input, rfl, ?_⟩
  unfold readClosing at done
  cases open' : reading.outer with
  | nil =>
      simp only [open'] at done
      obtain ⟨_, _, rest⟩ := bind_eq_ok.mp done
      cases rest
  | cons level outer =>
      simp only [open'] at done
      cases done
      exact .close level outer open'

/-- A step does what the text asks for. -/
theorem step_obeys
    {token : Token}
    (done : reading.step token = .ok next) :
    ∃ input, reading.input.drop token.width = .ok input ∧
      reading.Obeys reading.input.pos (lex reading.flags token input) next := by
  unfold step at done
  simp only at done
  by_cases closes : (decide (token = .plain ')') && reading.outer.isEmpty) = true
  · rw [if_pos closes] at done
    simp only [Bool.and_eq_true, List.isEmpty_iff] at closes
    unfold readClosing at done
    simp only [closes.2] at done
    obtain ⟨_, _, rest⟩ := bind_eq_ok.mp done
    cases rest
  · rw [if_neg closes] at done
    have goesOn : (do
        let input ← reading.input.drop token.width
        match token with
        | .plain ')' => reading.readClosing reading.input.pos input
        | .plain '|' => reading.readBar reading.input.pos input
        | .escaped c => reading.readEscape c input
        | .plain c =>
            if reading.flags.verbose && isLayout c then
              .ok { reading with input := input }
            else if reading.flags.verbose && c == '#' then
              reading.skipComment input
            else
              reading.readPlain c input) = .ok next := by
      cases opener : reading.level.opener with
      | branch index =>
          simp only [opener, Bool.and_true] at done
          split at done
          · rename_i third
            simp only [Bool.and_eq_true, Bool.not_eq_true'] at third
            unfold readBar at done
            simp only [opener, third.2] at done
            cases done
          · exact done
      | whole =>
          simp only [opener, Bool.and_false, Bool.false_and, Bool.false_eq_true, if_false] at done
          exact done
      | plain =>
          simp only [opener, Bool.and_false, Bool.false_and, Bool.false_eq_true, if_false] at done
          exact done
      | flagged =>
          simp only [opener, Bool.and_false, Bool.false_and, Bool.false_eq_true, if_false] at done
          exact done
      | capture index =>
          simp only [opener, Bool.and_false, Bool.false_and, Bool.false_eq_true, if_false] at done
          exact done
      | atomic =>
          simp only [opener, Bool.and_false, Bool.false_and, Bool.false_eq_true, if_false] at done
          exact done
      | look _ _ _ =>
          simp only [opener, Bool.and_false, Bool.false_and, Bool.false_eq_true, if_false] at done
          exact done
    obtain ⟨input, dropped, rest⟩ := bind_eq_ok.mp goesOn
    refine ⟨input, dropped, ?_⟩
    have place := Input.drop_eq dropped
    unfold lex
    split at rest
    · exact readClosing_obeys rest
    · exact readBar_obeys rest
    · exact readEscape_obeys rest
    · rename_i c _ _
      have start : reading.input.pos = input.pos - 1 := by
        rw [place]
        simp [Token.width]
      split at rest
      · rename_i layout
        cases rest
        exact ⟨.skip, input, by simp [lexPlain, layout], .skip⟩
      · rename_i noLayout
        split at rest
        · rename_i comment
          have asked : reading.Obeys reading.input.pos (lexComment input) next :=
            skipComment_obeys rest
          unfold lexPlain
          rw [if_neg noLayout, if_pos comment]
          exact asked
        · rename_i noComment
          exact readPlain_obeys start (by simpa using noLayout) (by simpa using noComment) rest

end Reading

end NoticeScan.Regex
