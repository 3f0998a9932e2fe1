import NoticeScan.Catalogue.Rule

/-!
# Creative Commons, the public domain and clauses on use

Licences for works of all kinds, dedications to the public domain, and clauses that restrict use.
-/

namespace NoticeScan.Catalogue

/-- The beer-ware licence. -/
def beerWare : Rule where
  licenses := ["\\bTHE BEER-WARE LICEN[CS]E"]

/-- The public domain dedication of Creative Commons. -/
def cc0 : Rule where
  licenses :=
    [ nameTag "CC0",
      "https?://[\\w.]\x7b0,30\x7dcreativecommons[.]org/publicdomain/zero(?:/[\\d.]\x7b0,30\x7d)?",
      "To the extent possible under law[,;:]? the person who associated CC0 with this code" ++
        " has waived all copyright and related or neighboring rights to this code[.]?",
      "To the greatest extent permitted by,? but not in contravention of,? applicable law,?" ++
        " Affirmer hereby overtly,? fully,? permanently,? irrevocably and unconditionally" ++
        " waives,? abandons,? and surrenders all of Affirmer'?s Copyright and Related Rights" ++
        " and associated claims and causes of action,? whether (?:now )?known or unknown",
      "Affirmer hereby grants to each affected person a royalty-?free,? non(?:" ++
        " |-)?transferable,? non(?: |-)?sublicensable,? non(?: |-)?exclusive,? irrevocable,?" ++
        " and unconditional license to exercise Affirmer'?s Copyright and Related Rights in" ++
        " the Work" ]

/-- Attribution, by Creative Commons, with commercial use. -/
def ccBy : Rule where
  licenses :=
    [ "\\bhttps?://[\\w.]\x7b0,30\x7dcreativecommons[.]org/licen[cs]es/by[-\\w.]\x7b0,60\x7d",
      "(?-i:\\bAttribution(?:-(?:Share ?Alike|NoDerivs))\x7b0,2\x7d )" ]

/-- Attribution, by Creative Commons, without commercial use. -/
def ccByNonCommercial : Rule where
  licenses :=
    [ "\\bhttps?://[\\w.]\x7b0,30\x7dcreativecommons[.]org/licenses/by(?:-nd)?(?:-sa)?-nc" ++
        "[-/\\w.]\x7b0,60\x7d",
      "\\bAttribution(?:-NoDerivs)?(?:-Share ?Alike)?-NonCommercial(?:-NoDerivs)?(?:-Share" ++
        " ?Alike)?" ]

/-- The Commons Clause. -/
def commonsClause : Rule where
  licenses := ["\\bCommons Clause"]

/-- Licences for non-commercial use. -/
def nonCommercial : Rule where
  licenses := ["\\bNON-?COMMERCIAL LICEN[CS]E"]

/-- Text marked as no contribution. Two words before the mark keep stray phrases from being
found. -/
def notAContribution : Rule where
  licenses :=
    [ ".*(?:" ++ anyWord ++ " )\x7b2\x7d" ++ openQuote ++
        "?Not a Contribution[.,;:]\x7b0,3\x7d" ++ closeQuote ++ "?.*" ]
  exclusions := [notAContributionOwner]

/-- The Unlicense. -/
def unlicense : Rule where
  licenses :=
    [ spdx "Unlicen[cs]e",
      nameTag "Unlicen[cs]e",
      "This is free and unencumbered software released into the public domain[,;:.]?",
      "the author (?:or authors )?of this software dedicate any and all copyright interest" ++
        " in the software to the public domain[,;:.]?",
      "(?:https?://)?(?:www[.])?unlicen[cs]e[.]org(?:/UNLICEN[CS]E)?" ]

/-- The licence that permits everything. -/
def wtfpl : Rule where
  licenses :=
    [ nameTag "WTFPL",
      spdx "WTFPL",
      "\\bDo What The F.ck You Want To Public Licen[cs]e" ]

end NoticeScan.Catalogue
