import NoticeScan.Proofs.Languages

/-!
# Outlines of expressions

What an expression takes of a text is a word of a language that is put together like the
expression, with everything left open that depends on the text around. From this outline it is
known which characters a group never captures, and where else a line can end in it.
-/

namespace NoticeScan.Regex

/-! ## What an expression takes at most -/

/-- A language that holds whatever an expression takes. Conditions on what is around and references
to groups are left open. -/
def Node.outline : Node → Language Char
  | .empty | .anchor _ | .look _ _ _ => 1
  | .never => 0
  | .char test => letters fun c => test.passes c = true
  | .seq first second => first.outline * second.outline
  | .alt first second | .branch _ first second => first.outline + second.outline
  | .group _ body | .atomic body => body.outline
  | .again _ _ => ⊤
  | .repeated _ low high body => counted low (high.map (max low)) body.outline

section Takes

variable {text : Array Char} {start stop : Nat} {passes : List Pass}

theorem Ways.extract_mem_pow
    {ways : Ways}
    {language : Language Char}
    (ordered : ∀ start stop passes, ways start stop passes → start ≤ stop)
    (within : ∀ start stop passes, ways start stop passes →
      (text.extract start stop).toList ∈ language)
    {count : Nat}
    (rounds : times count ways start stop passes) :
    (text.extract start stop).toList ∈ language ^ count := by
  induction count generalizing start passes with
  | zero =>
      rw [rounds.1, pow_zero, Language.mem_one]
      exact extract_self
  | succ count inductionHypothesis =>
      obtain ⟨middle, before, after, one, others, -⟩ := rounds
      rw [pow_succ', extract_split (ordered _ _ _ one) (le_times ordered others)]
      exact Language.append_mem_mul (within _ _ _ one) (inductionHypothesis others)

/-- What an expression takes is a word of its outline. -/
theorem Node.extract_mem_outline
    {node : Node}
    (way : node.ways text start stop passes) :
    (text.extract start stop).toList ∈ node.outline := by
  -- A way on which nothing is taken.
  have still : ∀ {start stop : Nat}, stop = start →
      (text.extract start stop).toList ∈ (1 : Language Char) := by
    rintro start stop rfl
    rw [Language.mem_one]
    exact extract_self
  induction node generalizing start stop passes with
  | empty => exact still way.1
  | never => exact way.elim
  | char test =>
      obtain ⟨⟨c, here, passed⟩, rfl, -⟩ := way
      obtain ⟨inside, rfl⟩ := Array.getElem?_eq_some_iff.mp here
      exact ⟨text[start], passed, extract_single inside⟩
  | anchor place => exact still way.2.1
  | seq first second ofFirst ofSecond =>
      obtain ⟨middle, before, after, one, other, -⟩ := way
      rw [extract_split (first.ways_le text _ _ _ one) (second.ways_le text _ _ _ other)]
      exact Language.append_mem_mul (ofFirst one) (ofSecond other)
  | alt first second ofFirst ofSecond =>
      rcases way with one | other
      · exact Or.inl (ofFirst one)
      · exact Or.inr (ofSecond other)
  | group index body ofBody =>
      obtain ⟨inner, inside, -⟩ := way
      exact ofBody inside
  | again index folding => exact Set.mem_univ _
  | look behind negated body _ => exact still way.1
  | atomic body ofBody => exact ofBody way
  | repeated greed low high body ofBody =>
      obtain ⟨count, least, most, rounds⟩ := way
      have power := Ways.extract_mem_pow (body.ways_le text) (fun _ _ _ => ofBody) rounds
      exact ⟨count, least, Option.forall_mem_map.mpr most, power⟩
  | branch index yes no ofYes ofNo =>
      rcases way with one | other
      · exact Or.inl (ofYes one)
      · exact Or.inr (ofNo other)

end Takes

/-! ## Characters that are never taken -/

/-- Whether nothing that an expression tests for lets a character pass. -/
def Node.avoids (c : Char) : Node → Bool
  | .empty | .never | .anchor _ | .look _ _ _ => true
  | .char test => !test.passes c
  | .seq first second | .alt first second | .branch _ first second =>
      first.avoids c && second.avoids c
  | .group _ body | .atomic body | .repeated _ _ _ body => body.avoids c
  | .again _ _ => false

theorem not_mem_of_pow
    {c : Char}
    {language : Language Char}
    (free : ∀ word ∈ language, c ∉ word)
    {count : Nat}
    {word : List Char}
    (power : word ∈ language ^ count) :
    c ∉ word := by
  obtain ⟨pieces, rfl, -, each⟩ := Language.mem_pow.mp power
  intro member
  obtain ⟨piece, listed, among⟩ := List.mem_flatten.mp member
  exact free piece (each piece listed) among

/-- A character that an expression avoids is in no word of its outline. -/
theorem Node.not_mem_of_avoids
    {c : Char}
    {node : Node}
    (avoids : node.avoids c = true) :
    ∀ word ∈ node.outline, c ∉ word := by
  induction node with
  | empty | anchor | look =>
      intro word nothing
      rw [(Language.mem_one word).mp nothing]
      exact List.not_mem_nil
  | never => exact fun word none => none.elim
  | char test =>
      rintro word ⟨other, passed, rfl⟩ member
      rw [← List.mem_singleton.mp member] at passed
      rw [Node.avoids, passed] at avoids
      cases avoids
  | seq first second ofFirst ofSecond =>
      obtain ⟨left, right⟩ := Bool.and_eq_true_iff.mp avoids
      intro word both member
      obtain ⟨front, one, back, other, rfl⟩ := Language.mem_mul.mp both
      rcases List.mem_append.mp member with early | late
      · exact ofFirst left front one early
      · exact ofSecond right back other late
  | alt first second ofFirst ofSecond | branch index first second ofFirst ofSecond =>
      obtain ⟨left, right⟩ := Bool.and_eq_true_iff.mp avoids
      rintro word (one | other)
      · exact ofFirst left word one
      · exact ofSecond right word other
  | group index body ofBody => exact ofBody avoids
  | atomic body ofBody => exact ofBody avoids
  | again index folding => cases avoids
  | repeated greed low high body ofBody =>
      rintro word ⟨count, -, -, power⟩
      exact not_mem_of_pow (ofBody avoids) power

/-! ## Groups that are passed -/

theorem Marks.between_of_eq_nil
    {passes : List Pass}
    (none : passes = [])
    (low high : Nat) :
    Marks.Between low high passes := by
  rw [none]
  exact Marks.between_nil low high

/-- On a way, groups are passed only whose borders lie where those of the expression do. -/
theorem Node.between_of_ways
    (text : Array Char)
    {node : Node}
    {low high : Nat}
    (fits : node.Fits low high)
    {start stop : Nat}
    {passes : List Pass}
    (way : node.ways text start stop passes) :
    Marks.Between low high passes := by
  induction node generalizing low high start stop passes with
  | empty => exact Marks.between_of_eq_nil way.2 low high
  | never => exact way.elim
  | char test => exact Marks.between_of_eq_nil way.2.2 low high
  | anchor place => exact Marks.between_of_eq_nil way.2.2 low high
  | again index folding => exact Marks.between_of_eq_nil way.2 low high
  | seq first second ofFirst ofSecond =>
      obtain ⟨border, left, right⟩ := fits
      obtain ⟨middle, before, after, one, other, rfl⟩ := way
      exact ((ofFirst left one).mono (Nat.le_refl _) right.le).append
        ((ofSecond right other).mono left.le (Nat.le_refl _))
  | alt first second ofFirst ofSecond =>
      rcases way with one | other
      · exact ofFirst fits.1 one
      · exact ofSecond fits.2 other
  | group index body ofBody =>
      obtain ⟨positive, least, most, bare⟩ := fits
      obtain ⟨inner, inside, rfl⟩ := way
      rw [Node.silent_of_bare bare text _ _ _ inside, List.nil_append]
      exact List.forall_mem_singleton.mpr ⟨positive, least, most⟩
  | look behind negated body ofBody =>
      obtain ⟨-, inside⟩ := way
      split at inside
      · exact Marks.between_of_eq_nil inside low high
      · obtain ⟨seen, inside⟩ := inside
        exact ofBody fits inside
  | atomic body ofBody => exact ofBody fits way
  | repeated greed least most body ofBody =>
      have inBody : body.Fits low high := by
        cases greed with
        | greedy => exact fits
        | lazy => exact fits
        | possessive => exact Node.fits_of_bare fits.2 fits.1
      obtain ⟨count, -, -, rounds⟩ := way
      induction count generalizing start passes with
      | zero => exact Marks.between_of_eq_nil rounds.2 low high
      | succ count inductionHypothesis =>
          obtain ⟨middle, before, after, one, others, rfl⟩ := rounds
          exact (ofBody inBody one).append (inductionHypothesis others)
  | branch index yes no ofYes ofNo =>
      rcases way with one | other
      · exact ofYes fits.1 one
      · exact ofNo fits.2 other

section Brings

variable {flags : Flags} {low high : Nat} {ways others : Array Char → Ways} {items : List Item}

/-- Items may be told by any kind of ways that theirs are of. -/
theorem Brings.told
    (brings : Brings flags low high ways items)
    (kind : ∀ text, (itemsWays text items).Le (others text)) :
    Brings flags low high others items where
  written := brings.written
  late := brings.late
  fits := brings.fits
  takes := kind

/-- Items without groups pass none. -/
theorem Brings.silent
    (brings : Brings flags low low ways items) :
    Brings flags low low (fun _ => .silent) items :=
  brings.told fun text _ _ _ way => (Node.between_of_ways text brings.fits way).eq_nil

/-- Ways that do not pass a group. -/
def Ways.without (number : Nat) : Ways := fun _ _ passes =>
  ∀ pass ∈ passes, pass.group ≠ number

/-- Items do not pass a group whose borders lie elsewhere. -/
theorem Brings.without
    {number before after : Nat}
    (brings : Brings flags (2 * before) (2 * after) ways items)
    (elsewhere : number ≤ before ∨ after < number) :
    Brings flags (2 * before) (2 * after) (fun _ => .without number) items := by
  refine brings.told fun text _ _ _ way pass member => ?_
  obtain ⟨positive, least, most⟩ := Node.between_of_ways text brings.fits way pass member
  rw [startBorder] at least most
  omega

end Brings

/-! ## Pieces that are told exactly -/

section Pieces

variable {deep : Bool} {flags : Flags} {before after : List (List Char × Nat)}
  {piece : List Char} {ways : Array Char → Ways}

theorem BuildsVia.silent
    (builds : BuildsVia ways deep flags before before piece) :
    BuildsVia (fun _ => .silent) deep flags before before piece := by
  obtain ⟨entries, adds, brings⟩ := builds
  exact ⟨entries, adds, brings.silent⟩

theorem OffersVia.imp
    {others : Array Char → Ways}
    (offers : OffersVia ways deep flags before after piece)
    (wider : ∀ text, (ways text).Le (others text)) :
    OffersVia others deep flags before after piece := by
  obtain ⟨branches, some, splits, each⟩ := offers
  exact ⟨branches, some, splits, fun branch member => (each branch member).imp wider⟩

theorem OffersVia.without
    (offers : OffersVia ways deep flags before after piece)
    {number : Nat}
    (elsewhere : number ≤ before.length ∨ after.length < number) :
    OffersVia (fun _ => .without number) deep flags before after piece := by
  obtain ⟨branches, some, splits, each⟩ := offers
  exact ⟨branches, some, splits, fun branch member => (each branch member).without elsewhere⟩

/-- The expression that a piece is by itself, if it is closed and has no bars. -/
def nodeOf? (flags : Flags) (piece : List Char) : Option Node :=
  (ending? flags piece).bind fun final =>
    if final.level.branches.isEmpty then
      some (Part.ofItems (final.level.entries.reverse.flatMap Entry.items)).node
    else
      none

/-- A closed piece without bars goes on with one branch without groups. -/
theorem exists_adds_of_nodeOf?
    {node : Node}
    (is : nodeOf? flags piece = some node)
    (terse : flags.verbose = false)
    (names : List (List Char × Nat)) :
    ∃ entries, Adds true flags names names piece entries ∧
      PlainBranches flags [entries.flatMap Entry.items] ∧
      (Part.ofItems (entries.flatMap Entry.items)).node = node := by
  obtain ⟨final, ends, single⟩ := Option.bind_eq_some_iff.mp is
  split at single
  · rename_i simple
    cases single
    have closed := closed_of_ending? ends
    have alone := List.isEmpty_iff.mp simple
    have plain := closed.plainBranches terse
    rw [Reading.branches, alone] at plain
    exact ⟨_, closed.adds terse alone names, plain, rfl⟩
  · cases single

theorem bare_of_nodeOf?
    {node : Node}
    (is : nodeOf? flags piece = some node)
    (terse : flags.verbose = false) :
    node.bare = true := by
  obtain ⟨entries, -, ⟨-, tidy, -⟩, rfl⟩ := exists_adds_of_nodeOf? is terse []
  exact (bare_ofItems _).mpr fun item member => (tidy _ List.mem_cons_self item member).bare

theorem builds_of_nodeOf?
    {node : Node}
    (is : nodeOf? flags piece = some node)
    (terse : flags.verbose = false)
    (names : List (List Char × Nat)) :
    BuildsVia (fun text => node.ways text) true flags names names piece := by
  obtain ⟨entries, adds, plain, rfl⟩ := exists_adds_of_nodeOf? is terse names
  have brings := plain.brings names _ List.mem_cons_self
  exact ⟨entries, adds, brings.told fun _ => .refl _⟩

/-- A group with a name of its own around a closed piece without bars. -/
theorem builds_captured_of_nodeOf?
    {node : Node}
    {name : List Char}
    (is : nodeOf? flags piece = some node)
    (terse : flags.verbose = false)
    (spelled : NamePlain name)
    (isName : Text.isName name = true)
    (new : before.lookup name = none) :
    BuildsVia (fun text => .inGroup (before.length + 1) (node.ways text)) deep flags before
      (before ++ [(name, before.length + 1)])
      ('(' :: '?' :: 'P' :: '<' :: (name ++ '>' :: (piece ++ [')']))) := by
  obtain ⟨entries, adds, ⟨-, tidy, late⟩, rfl⟩ :=
    exists_adds_of_nodeOf? is terse (before ++ [(name, before.length + 1)])
  refine ⟨_, (Splits.of_adds adds).captured spelled isName new, ?_⟩
  rw [List.flatMap_singleton, List.length_append]
  exact Brings.captured (tidy _ List.mem_cons_self) (late _ List.mem_cons_self) before.length

end Pieces

end NoticeScan.Regex
