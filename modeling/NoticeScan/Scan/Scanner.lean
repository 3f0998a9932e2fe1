import NoticeScan.RuleSet.Signature
import NoticeScan.Scan.Composite
import NoticeScan.Scan.ContractWords
import NoticeScan.Scan.Finding
import NoticeScan.Scan.Normal

/-!
# Scanners

A scanner is built from a rule set once: all patterns are compiled, and their inline forms make
up the composite expression. It can then tell whose a normal text is.
-/

namespace NoticeScan

open NoticeScan.Scan

/-- Why a scanner cannot be built. -/
inductive BuildError where
  | pattern (failure : Pattern.Failure)
  /-- The composite expression is not well formed. -/
  | composite (error : Regex.Error)
  /-- A pattern has brought along a group whose name belongs to no slot. -/
  | foreignGroup (name : List Char)
  deriving Repr, DecidableEq

/-- The wording of an error. -/
def BuildError.message : BuildError → String
  | .pattern failure => failure.message
  | .composite error => error.message
  | .foreignGroup name =>
      String.ofList (Text.quoted (Slot.titlePart name)) ++ " is not a valid Slot"

/-- A rule set made ready for scanning. -/
structure Scanner where
  rules : RuleSet
  limits : Pattern.Limits := {}
  /-- The number of characters of a text that are looked at. -/
  window : Int := 262144
  /-- The number of findings that are enough. -/
  threshold : Int := 10
  licenses : Role → List Pattern.Compiled
  owners : Role → List Pattern.Compiled
  exclusions : List Regex
  /-- The text of the composite expression. -/
  expression : Pattern.Expr
  composite : Regex
  /-- The slots of the named groups, by the numbers of the groups. -/
  slots : List (Nat × Slot)

namespace Scanner

/-- The number of characters that are looked at if nothing else is asked for. -/
def defaultWindow : Int := 262144

/-- The number of findings that are enough if nothing else is asked for. -/
def defaultThreshold : Int := 10

/-! ## Building -/

/-- The roles in the order in which patterns come in the composite expression. -/
def compositeOrder : List Role :=
  [.third, .first, .forbidden]

/-- Compiles the patterns of one list. -/
def compileList (limits : Pattern.Limits) (patterns : List String) :
    Except BuildError (List Pattern.Compiled) :=
  patterns.mapM fun pattern => (Pattern.compile limits pattern).mapError .pattern

/-- Compiles the exclusions, in which case is ignored. -/
def compileExclusions (patterns : List String) : Except BuildError (List Regex) :=
  patterns.mapM fun pattern =>
    (Pattern.compileExclusion { ignoreCase := true } pattern).mapError .pattern

/-- Something for each role. -/
def byRole {α : Type} (first third forbidden : α) : Role → α
  | .first => first
  | .third => third
  | .forbidden => forbidden

/-- The inline forms of patterns, in the order of the composite expression. -/
def bodies (patterns : Role → List Pattern.Compiled) : List Pattern.Expr :=
  compositeOrder.flatMap fun role => (patterns role).map (·.body)

/-- The slots of the named groups. -/
def slotTable (names : List (List Char × Nat)) : Except BuildError (List (Nat × Slot)) :=
  names.mapM fun (name, index) =>
    match Slot.ofGroup? name with
    | some slot => .ok (index, slot)
    | none => .error (.foreignGroup name)

/-- Builds a scanner. The first pattern that fails is reported, with the licences before the
owners and the exclusions last. -/
def build (rules : RuleSet) (limits : Pattern.Limits) (window threshold : Int) :
    Except BuildError Scanner := do
  let firstLicenses ← compileList limits rules.firstLicenses
  let thirdLicenses ← compileList limits rules.thirdLicenses
  let forbiddenLicenses ← compileList limits rules.forbiddenLicenses
  let firstOwners ← compileList limits rules.firstOwners
  let thirdOwners ← compileList limits rules.thirdOwners
  let forbiddenOwners ← compileList limits rules.forbiddenOwners
  let words ← compileList limits contractWords
  let exclusions ← compileExclusions rules.exclusions
  let licenses := byRole firstLicenses thirdLicenses forbiddenLicenses
  let owners := byRole firstOwners thirdOwners forbiddenOwners
  let parts : Ingredients :=
    { limits := limits
      licenses := bodies licenses
      owners := bodies owners
      words := words.map (·.body) }
  let expression := parts.composite
  let composite ← (Regex.compile Pattern.flags expression).mapError .composite
  let slots ← slotTable composite.names
  return {
    rules := rules
    limits := limits
    window := window
    threshold := threshold
    licenses := licenses
    owners := owners
    exclusions := exclusions
    expression := expression
    composite := composite
    slots := slots }

/-- Builds a scanner with the usual bounds. -/
def ofRules (rules : RuleSet) : Except BuildError Scanner :=
  build rules {} defaultWindow defaultThreshold

/-- The slot of a group. -/
def slot? (scanner : Scanner) (group : Nat) : Option Slot :=
  scanner.slots.lookup group

/-! ## Whose a text is -/

/-- The roles in the order in which they are asked for. -/
def askingOrder : List Role :=
  [.forbidden, .third, .first]

/-- The party of a role. -/
def partyOf : Role → Party
  | .first => .first
  | .third => .third
  | .forbidden => .forbidden

/-- Whether some exclusion matches anywhere in a text. -/
def isExcluded (scanner : Scanner) (text : List Char) : Bool :=
  scanner.exclusions.any fun exclusion => (exclusion.find? text.toArray).isSome

/-- The party of the patterns of which one describes a text. -/
def describing? (patterns : Role → List Pattern.Compiled) (text : List Char) : Option Party :=
  let chars := text.toArray
  (askingOrder.find? fun role => (patterns role).any fun pattern => pattern.describes chars).map
    partyOf

/-- The party of a known licence. -/
def knownLicense? (scanner : Scanner) (text : List Char) : Option Party :=
  describing? scanner.licenses text

/-- The party of a known owner. -/
def knownOwner? (scanner : Scanner) (owner : List Char) : Option Party :=
  if owner.isEmpty then none else describing? scanner.owners owner

/-- A letter from `A` to `Z` made small. -/
def smallLetter (c : Char) : Char :=
  if 'A' ≤ c && c ≤ 'Z' then Char.ofNat (c.toNat + 0x20) else c

/-- Whether a text occurs in another one. -/
def occursIn (part : List Char) : List Char → Bool
  | [] => part.isEmpty
  | c :: rest => part.isPrefixOf (c :: rest) || occursIn part rest

/-- Whether a text holds the word for a licence, in either spelling and in any case. -/
def mentionsLicense (text : List Char) : Bool :=
  let small := text.map smallLetter
  occursIn "license".toList small || occursIn "licence".toList small

/-- Whose a normal text is that has been captured in a slot, and what it is about. -/
def classify (scanner : Scanner) (text : List Char) (slot : Slot) : Party × Kind :=
  match scanner.knownLicense? text with
  | some party => (party, .license)
  | none =>
      if slot.isLicense || mentionsLicense text then
        (.unknown, .license)
      else
        ((scanner.knownOwner? (normalOwner text)).getD .third, .owner)

end Scanner

end NoticeScan
