import Mathlib
import NoticeScan.Verdict

/-!
# Verdicts and permissions

A verdict is folded from findings one by one, but what it comes to depends only on which findings
there are. A file of the project's own is one in which everything is allowed without third
parties, and a file in which everything is allowed with them is the project's own or a third
party's.
-/

namespace NoticeScan

/-- An owner who is a third party. -/
def Finding.IsOutsideOwner (finding : Finding) : Prop :=
  finding.party = .third ∧ finding.kind = .owner

/-- A licence that is the project's own. -/
def Finding.IsOwnLicense (finding : Finding) : Prop :=
  finding.party = .first ∧ finding.kind = .license

/-- The rank to which a finding raises the party of a file; an owner who is a third party raises
nothing. -/
def Finding.weight (finding : Finding) : Nat :=
  match finding.party, finding.kind with
  | .third, .owner => 0
  | party, _ => party.rank

theorem Finding.weight_eq_zero_iff
    (finding : Finding) :
    finding.weight = 0 ↔ finding.party = .first ∨ finding.IsOutsideOwner := by
  rcases finding with ⟨party, kind⟩
  cases party <;> cases kind <;> simp [weight, Party.rank, IsOutsideOwner]

theorem Finding.weight_le_one_iff
    (finding : Finding) :
    finding.weight ≤ 1 ↔ finding.party = .first ∨ finding.party = .third := by
  rcases finding with ⟨party, kind⟩
  cases party <;> cases kind <;> simp [weight, Party.rank]

theorem Party.rank_inj
    {one other : Party} :
    one.rank = other.rank ↔ one = other := by
  cases one <;> cases other <;> simp [rank]

theorem Party.rank_eq_zero_iff
    {party : Party} :
    party.rank = 0 ↔ party = .first := by
  rw [← Party.rank_inj]
  rfl

theorem Party.rank_le_one_iff
    {party : Party} :
    party.rank ≤ 1 ↔ party = .first ∨ party = .third := by
  cases party <;> simp [rank]

namespace Verdict

/-! ## What a fold knows of its findings -/

/-- A state is that of folding some findings: its flags tell which kinds of findings there are,
and its party has the greatest of their weights. -/
structure Fold.Sums (state : Fold) (findings : List Finding) : Prop where
  outsideOwner : state.outsideOwner = true ↔ ∃ finding ∈ findings, finding.IsOutsideOwner
  ownLicense : state.ownLicense = true ↔ ∃ finding ∈ findings, finding.IsOwnLicense
  overall : ∀ level, state.overall.rank ≤ level ↔ ∀ finding ∈ findings, finding.weight ≤ level

theorem Fold.sums_empty : Fold.Sums {} [] := by
  refine ⟨?_, ?_, ?_⟩
  all_goals simp [Party.rank]

section Steps

variable {state : Fold} {findings : List Finding}

theorem Fold.add_outsideOwner
    (state : Fold)
    (finding : Finding) :
    (state.add finding).outsideOwner = true ↔
      finding.IsOutsideOwner ∨ state.outsideOwner = true := by
  rcases finding with ⟨party, kind⟩
  cases party <;> cases kind <;> simp only [add, Finding.IsOutsideOwner] <;> (try split) <;> simp

theorem Fold.add_ownLicense
    (state : Fold)
    (finding : Finding) :
    (state.add finding).ownLicense = true ↔
      finding.IsOwnLicense ∨ state.ownLicense = true := by
  rcases finding with ⟨party, kind⟩
  cases party <;> cases kind <;> simp only [add, Finding.IsOwnLicense] <;> (try split) <;> simp

theorem Fold.add_overall
    (state : Fold)
    (finding : Finding) :
    (state.add finding).overall.rank = max finding.weight state.overall.rank := by
  have raised : ∀ party : Party,
      (if state.overall.rank < party.rank then { state with overall := party }
        else state).overall.rank = max party.rank state.overall.rank := by
    intro party
    split
    · rename_i less
      exact (Nat.max_eq_left (Nat.le_of_lt less)).symm
    · rename_i notLess
      exact (Nat.max_eq_right (Nat.le_of_not_lt notLess)).symm
  have kept : state.overall.rank = max 0 state.overall.rank := (Nat.zero_max _).symm
  rcases finding with ⟨party, kind⟩
  cases party <;> cases kind <;> first | exact raised _ | exact kept

/-- One more finding is taken account of. -/
theorem Fold.Sums.add
    (sums : state.Sums findings)
    (finding : Finding) :
    (state.add finding).Sums (finding :: findings) := by
  refine ⟨?_, ?_, ?_⟩
  · rw [Fold.add_outsideOwner, sums.outsideOwner, List.exists_mem_cons_iff]
  · rw [Fold.add_ownLicense, sums.ownLicense, List.exists_mem_cons_iff]
  · intro level
    rw [Fold.add_overall, max_le_iff, sums.overall, List.forall_mem_cons]

/-- So are all findings of a run. -/
theorem Fold.Sums.foldl
    (sums : state.Sums findings)
    (more : List Finding) :
    (more.foldl Fold.add state).Sums (more.reverse ++ findings) := by
  induction more generalizing state findings with
  | nil => exact sums
  | cons finding rest inductionHypothesis =>
      rw [List.foldl_cons, List.reverse_cons, List.append_assoc]
      exact inductionHypothesis (sums.add finding)

/-- A state is known by the findings that have been folded into it, whatever their order and
however often they occur. -/
theorem Fold.Sums.unique
    {other : Fold}
    {others : List Finding}
    (sums : state.Sums findings)
    (sumsOther : other.Sums others)
    (same : ∀ finding, finding ∈ others ↔ finding ∈ findings) :
    other = state := by
  have outsideOwner : other.outsideOwner = state.outsideOwner := by
    rw [Bool.eq_iff_iff, sumsOther.outsideOwner, sums.outsideOwner]
    simp only [same]
  have ownLicense : other.ownLicense = state.ownLicense := by
    rw [Bool.eq_iff_iff, sumsOther.ownLicense, sums.ownLicense]
    simp only [same]
  have levels : ∀ level, other.overall.rank ≤ level ↔ state.overall.rank ≤ level := by
    intro level
    rw [sumsOther.overall, sums.overall]
    simp only [same]
  have overall : other.overall = state.overall :=
    Party.rank_inj.mp (Nat.le_antisymm ((levels _).mpr (Nat.le_refl _))
      ((levels _).mp (Nat.le_refl _)))
  cases other
  cases state
  simp_all

end Steps

/-- The state behind all findings of a file. -/
def total (findings : List Finding) : Fold :=
  findings.foldl Fold.add {}

theorem sums_total
    (findings : List Finding) :
    (total findings).Sums findings := by
  have sums := Fold.sums_empty.foldl findings
  rw [List.append_nil] at sums
  refine ⟨?_, ?_, ?_⟩
  · simpa only [total, List.mem_reverse] using sums.outsideOwner
  · simpa only [total, List.mem_reverse] using sums.ownLicense
  · simpa only [total, List.mem_reverse] using sums.overall

/-! ## The party of a file -/

variable {findings : List Finding}

/-- A file is the project's own if nothing in it raises its party and, where an owner is a third
party, a licence is the project's own. -/
theorem party_eq_first_iff :
    party findings = .first ↔
      (∀ finding ∈ findings, finding.weight = 0) ∧
        ((∃ finding ∈ findings, finding.IsOutsideOwner) →
          ∃ finding ∈ findings, finding.IsOwnLicense) := by
  have sums := sums_total findings
  have lowest : (total findings).overall = .first ↔ ∀ finding ∈ findings, finding.weight = 0 := by
    have level := sums.overall 0
    simp only [Nat.le_zero, Party.rank_eq_zero_iff] at level
    exact level
  rw [← lowest, ← sums.outsideOwner, ← sums.ownLicense]
  change (total findings).party = .first ↔ _
  rw [Fold.party]
  cases (total findings).overall <;> cases (total findings).outsideOwner <;>
    cases (total findings).ownLicense <;> decide

/-- The flags never take a file that is at most a third party's any further. -/
theorem party_rank_le_one_iff :
    (party findings).rank ≤ 1 ↔ ∀ finding ∈ findings, finding.weight ≤ 1 := by
  rw [← (sums_total findings).overall 1]
  change (total findings).party.rank ≤ 1 ↔ _
  rw [Fold.party]
  cases (total findings).overall <;> cases (total findings).outsideOwner <;>
    cases (total findings).ownLicense <;> decide

theorem party_congr
    {others : List Finding}
    (same : ∀ finding, finding ∈ others ↔ finding ∈ findings) :
    party others = party findings :=
  congrArg Fold.party ((sums_total findings).unique (sums_total others) same)

/-! ## What is allowed -/

theorem allowsFinding_iff
    (overall : Party)
    (thirdPartyAllowed : Bool)
    (finding : Finding) :
    allowsFinding overall thirdPartyAllowed finding = true ↔
      finding.party = .first ∨
        finding.party = .third ∧
          (thirdPartyAllowed = true ∨ finding.kind = .owner ∧ overall = .first) := by
  rcases finding with ⟨party, kind⟩
  cases party <;> simp [allowsFinding]

/-- Without third parties, all is allowed in just the files of the project's own. -/
theorem allows_false_iff :
    allows findings false = true ↔ party findings = .first := by
  simp only [allows, List.all_eq_true, allowsFinding_iff, Bool.false_eq_true, false_or]
  constructor
  · intro allowed
    by_contra other
    have own : ∀ finding ∈ findings, finding.party = .first := by
      intro finding member
      rcases allowed finding member with first | ⟨-, -, first⟩
      · exact first
      · exact absurd first other
    refine other (party_eq_first_iff.mpr ⟨?_, ?_⟩)
    · intro finding member
      exact finding.weight_eq_zero_iff.mpr (Or.inl (own finding member))
    · rintro ⟨finding, member, third, -⟩
      rw [own finding member] at third
      cases third
  · intro first finding member
    have weightless := (party_eq_first_iff.mp first).1 finding member
    rcases finding.weight_eq_zero_iff.mp weightless with own | ⟨third, owner⟩
    · exact Or.inl own
    · exact Or.inr ⟨third, owner, first⟩

/-- With third parties, all is allowed in just the files of the project's own and of third
parties. -/
theorem allows_true_iff :
    allows findings true = true ↔ party findings = .first ∨ party findings = .third := by
  rw [← Party.rank_le_one_iff, party_rank_le_one_iff]
  simp only [allows, List.all_eq_true, allowsFinding_iff, true_or, and_true,
    Finding.weight_le_one_iff]

theorem allows_congr
    {others : List Finding}
    (same : ∀ finding, finding ∈ others ↔ finding ∈ findings)
    (thirdPartyAllowed : Bool) :
    allows others thirdPartyAllowed = allows findings thirdPartyAllowed := by
  rw [Bool.eq_iff_iff, allows, allows, List.all_eq_true, List.all_eq_true, party_congr same]
  simp only [same]

/-- Permission follows from the party of a file, and both depend only on which findings there
are: neither their order nor their number matters. -/
theorem allows_iff_party
    (findings : List Finding) :
    (allows findings false = true ↔ party findings = .first) ∧
      (allows findings true = true ↔ party findings = .first ∨ party findings = .third) ∧
      ∀ others : List Finding, (∀ finding, finding ∈ others ↔ finding ∈ findings) →
        party others = party findings ∧
          ∀ thirdPartyAllowed, allows others thirdPartyAllowed = allows findings thirdPartyAllowed :=
  ⟨allows_false_iff, allows_true_iff, fun _ same => ⟨party_congr same, allows_congr same⟩⟩

/-- An outside author under a licence of the project's own, and the same the other way around
with the author named twice. -/
theorem allows_iff_party_author :
    let author : Finding := ⟨.third, .owner, "Ann".toList, 2, 2, 30, 33⟩
    let license : Finding := ⟨.first, .license, "Own".toList, 1, 1, 0, 3⟩
    (∀ finding, finding ∈ [author, license, author] ↔ finding ∈ [license, author]) ∧
      party [author, license, author] = .first ∧
      party [author, license, author] = party [license, author] ∧
      allows [author, license, author] false = allows [license, author] false := by
  intro author license
  have same : ∀ finding, finding ∈ [author, license, author] ↔ finding ∈ [license, author] := by
    intro finding
    simp only [List.mem_cons, List.not_mem_nil, or_false]
    tauto
  obtain ⟨-, -, alike⟩ := allows_iff_party [license, author]
  obtain ⟨parties, permissions⟩ := alike _ same
  exact ⟨same, by decide, parties, permissions false⟩

end Verdict

end NoticeScan
