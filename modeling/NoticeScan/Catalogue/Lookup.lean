import NoticeScan.Catalogue.Copyleft
import NoticeScan.Catalogue.Creative
import NoticeScan.Catalogue.EditDistance
import NoticeScan.Catalogue.Permissive
import NoticeScan.Catalogue.Project

/-!
# Looking rules up by name

The table of all rules. A name that is not in it is answered with the names nearest to it, or
with all names when none is near.
-/

namespace NoticeScan.Catalogue

/-- The rules by their names, in ascending order of the names. -/
def entries : List (String × Rule) :=
  [ ("AFL2.1", afl21), ("AFL3.0", afl30), ("AGPL", agpl), ("ANDROID", android),
    ("APACHE1.1", apache11), ("APACHE2", apache2), ("ARTISTIC_LICENSE", artistic),
    ("BEER_WARE", beerWare), ("BOOST", boost), ("BSD", bsd), ("BSL1.0", boost), ("CC0", cc0),
    ("CC_BY_C", ccBy), ("CC_BY_NC", ccByNonCommercial), ("CLANG_LLVM", clang),
    ("COMMONS_CLAUSE", commonsClause), ("CPAL", cpal), ("EDL", edl), ("EPL", epl),
    ("EUPL", eupl), ("EXAMPLES", placeholder), ("FTL", freeType), ("GOOGLE", google),
    ("GPL", gpl), ("GPL2", gpl2), ("GPL3", gpl3), ("ISC", isc), ("JSON", json), ("LGPL", lgpl),
    ("LIBTIFF", libtiff), ("LPL1.02", lucent), ("MIT", mit), ("MS-PL", microsoft),
    ("NCSA", ncsa), ("NON_COMMERCIAL", nonCommercial), ("NOT_A_CONTRIBUTION", notAContribution),
    ("OPENSSL", openssl), ("PSF", psf), ("PSFL", psfl), ("SISSL", sissl),
    ("SSPL", sspl), ("UNICODE", unicode), ("UNLICENSE", unlicense), ("UPL", upl), ("W3C", w3c),
    ("WATCOM", watcom), ("WTFPL", wtfpl), ("XNET", xnet), ("ZEND", zend), ("ZLIB", zlib),
    ("ZPL", zope) ]

/-- All names, in ascending order. -/
def names : List String :=
  entries.map Prod.fst

/-- The distance from which on a name is too far away to be meant. -/
def farDistance : Nat := 3

/-- How far a name is from the nearest one in the catalogue. -/
def nearestDistance (name : String) : Nat :=
  (names.map fun known => editDistance name.toList known.toList).foldl min farDistance

/-- The nearest names in the catalogue, unless they are too far away. -/
def suggestions (name : String) : List String :=
  let nearest := nearestDistance name
  if nearest < farDistance then
    names.filter fun known => editDistance name.toList known.toList == nearest
  else
    []

/-- A name that is not in the catalogue. -/
structure UnknownName where
  name : String
  suggestions : List String
  deriving Repr, DecidableEq

/-- Names with commas between them and an "or" before the last one. -/
def orList : List String → String
  | [] => ""
  | [name] => name
  | first :: rest =>
      String.intercalate ", " (first :: rest.dropLast) ++ " or " ++ rest.getLastD ""

/-- The wording of the complaint about an unknown name. -/
def UnknownName.message (unknown : UnknownName) : String :=
  "Unknown license or copyright owner name: " ++ unknown.name ++
    if unknown.suggestions.isEmpty then
      "\n\nKnown names are: " ++ orList names ++ "."
    else
      "\n\nDid you mean " ++ orList unknown.suggestions ++ "?"

/-- The rule of a name. -/
def find (name : String) : Except UnknownName Rule :=
  match entries.lookup name with
  | some rule => .ok rule
  | none => .error ⟨name, suggestions name⟩

end NoticeScan.Catalogue
