/-!
# Slots

The places of the composite expression that capture something. A group tells by its name which
slot it belongs to: the name of the slot and a number, with a low line between them.
-/

namespace NoticeScan.Scan

/-- What a group of the composite expression captures. -/
inductive Slot where
  /-- A licence pattern of the rule set. -/
  | knownLicense
  /-- The licence under which something is said to be distributed. -/
  | genericLicense
  /-- The names behind the label of a licence, on one line. -/
  | licenseLabel
  /-- An author. -/
  | author
  /-- An owner in a copyright notice. -/
  | copyrightOwner
  deriving Repr, DecidableEq

namespace Slot

/-- All slots. -/
def all : List Slot :=
  [.knownLicense, .genericLicense, .licenseLabel, .author, .copyrightOwner]

/-- The name of a slot. -/
def title : Slot → String
  | .knownLicense => "known_license"
  | .genericLicense => "generic_license"
  | .licenseLabel => "license_label"
  | .author => "author"
  | .copyrightOwner => "copyright_owner"

/-- Whether a slot captures a licence. -/
def isLicense : Slot → Bool
  | .knownLicense | .genericLicense | .licenseLabel => true
  | .author | .copyrightOwner => false

/-- The slot of a name. -/
def ofTitle? (title : List Char) : Option Slot :=
  all.find? fun slot => slot.title.toList = title

/-- The part of a group's name before its last low line, or all of it if there is none. -/
def titlePart (name : List Char) : List Char :=
  if name.contains '_' then ((name.reverse.dropWhile (· != '_')).drop 1).reverse else name

/-- The slot of a group. -/
def ofGroup? (name : List Char) : Option Slot :=
  ofTitle? (titlePart name)

end Slot

end NoticeScan.Scan
