import NoticeScan.Scan.Finding

/-!
# Verdicts

The findings in a file are folded into the party of the file, and each finding is allowed or not.
A project's own licence may stand beside the names of outside authors: an owner who is a third
party does not make the file one, unless nothing says that the file is the project's own.
-/

namespace NoticeScan

/-- When parties disagree, the one of higher rank wins. -/
def Party.rank : Party → Nat
  | .first => 0
  | .third => 1
  | .unknown => 2
  | .forbidden => 3

namespace Verdict

/-- The state of folding findings. -/
structure Fold where
  overall : Party := .first
  /-- Some owner is a third party. -/
  outsideOwner : Bool := false
  /-- Some licence is the project's own. -/
  ownLicense : Bool := false
  deriving Repr, DecidableEq

/-- The state with one more finding. -/
def Fold.add (state : Fold) (finding : Finding) : Fold :=
  match finding.party, finding.kind with
  | .third, .owner => { state with outsideOwner := true }
  | .first, .license => { state with ownLicense := true }
  | party, _ => if state.overall.rank < party.rank then { state with overall := party } else state

/-- The party that a state amounts to. -/
def Fold.party (state : Fold) : Party :=
  if state.overall = .first && state.outsideOwner && !state.ownLicense then .third
  else state.overall

/-- The party of a file with some findings. -/
def party (findings : List Finding) : Party :=
  (findings.foldl Fold.add {}).party

/-- Whether a finding is allowed in a file of a party. -/
def allowsFinding (overall : Party) (thirdPartyAllowed : Bool) (finding : Finding) : Bool :=
  match finding.party with
  | .first => true
  | .third => thirdPartyAllowed || (finding.kind = .owner && overall = .first)
  | _ => false

/-- Whether all findings in a file are allowed. -/
def allows (findings : List Finding) (thirdPartyAllowed : Bool) : Bool :=
  findings.all (allowsFinding (party findings) thirdPartyAllowed)

end Verdict

end NoticeScan
