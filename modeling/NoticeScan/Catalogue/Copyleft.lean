import NoticeScan.Catalogue.Rule

/-!
# Copyleft licences

Licences that ask for changes to be passed on under the same terms.
-/

namespace NoticeScan.Catalogue

/-- The name of the GNU project, with or without brackets. -/
def gnu : String :=
  "[\\[]?GNU[\\]]?"

/-- Mentions of the General Public License that do not grant it. -/
def gplExclusions : List String :=
  [ "See the " ++ gnu ++ " General Public Licen[cs]e for more details[,.;:]?",
    "In addition to the permissions in the GNU General Public License[,.;:]?" ]

/-- Mentions of the Affero licence in the texts of other licences. -/
def afferoMentions : List String :=
  [ "Use with the GNU Affero General Public License[.]?",
    "link or combine any covered work with a work licensed under version 3 of the GNU" ++
      " Affero General Public License into a single combined work[,.;:]?",
    "but the special requirements of the GNU Affero General Public License,?",
    "means either the GNU General Public License,? Version 2[.]0,? the GNU Lesser General" ++
      " Public License,? Version 2[.]1,? the GNU Affero General Public License,?" ]

/-- The Affero licence of GNU. Its name also occurs in the texts of other licences; those
mentions are found first and excluded. -/
def agpl : Rule where
  licenses := afferoMentions ++ ["Affero"]
  exclusions := afferoMentions

/-- The Common Public Attribution License. -/
def cpal : Rule where
  licenses := ["\\bCommon Public Attribution Licen[cs]e"]

/-- The Eclipse Public License. -/
def epl : Rule where
  licenses :=
    [ nameTag "Eclipse Public Licen[cs]e(?: -)?(?: (?:v ?|version )?1[.]?[0]?)?",
      "^Eclipse Public Licen[cs]e[.]?",
      ".*under (?:(?:the|this) )?(?:terms of )?(?:the )?eclipse (?:public" ++
        " )?licen[cs]e[,.;:]?.*",
      ".*terms of (?:(?:the|this) )?eclipse public licen[cs]e[,.;:]?.*" ]

/-- The European Union Public Licence. -/
def eupl : Rule where
  licenses := [" [(]?EUPL[)]? "]

/-- The General Public License of GNU, in any version. -/
def gpl : Rule where
  licenses :=
    [ "\\bIn addition to the permissions in the GNU General Public License[,.;:]?",
      "See the " ++ gnu ++ " General Public Licen[cs]e for more details[,.;:]?",
      "\\bGNU General Public Licen[cs]e",
      ".*gnu (?:library|lesser) general public licen[cs]e.*" ]
  exclusions := gplExclusions

/-- The General Public License of GNU, version 2. -/
def gpl2 : Rule where
  licenses :=
    [ nameTag "GNU General Public License, Version 2",
      nameTag "The GPLv2 License",
      nameTag "GPLv2",
      spdx "GPL-2[.]0[+]?",
      spdx "GPL-2[.]0-only",
      spdx "GPL-2[.]0-or-later",
      ".*" ++ gnu ++ " GPL[,;]? version 2[,.;:]?.*",
      ".*" ++ gnu ++ " General Public Licen[cs]e[,;]? version 2[,.;:]?.*",
      "See the " ++ gnu ++ " General Public Licen[cs]e for more details[,.;:]?",
      "You should have received a copy of the " ++ gnu ++ " General Public Licen[cs]e",
      ".*" ++ gnu ++ " General Public Licen[cs]e as published by the Free Software" ++
        " Foundation?(?:[']s)?[,.;:]? (?:either )?version 2.*" ]
  exclusions := gplExclusions

/-- The General Public License of GNU, version 3. -/
def gpl3 : Rule where
  licenses :=
    [ nameTag "GPLv3",
      spdx "GPL-3[.]0[+]?",
      ".*" ++ gnu ++ " GPL[,;]? version 3[,.;:]?.*",
      ".*" ++ gnu ++ " General Public Licen[cs]e[,;]? version 3[,.;:]?.*",
      "See the " ++ gnu ++ " General Public Licen[cs]e for more details[,.;:]?",
      "You should have received a copy of the " ++ gnu ++ " General Public Licen[cs]e",
      ".*" ++ gnu ++ " General Public Licen[cs]e as published by the Free Software" ++
        " Foundation?(?:[']s)?[,.;:]? (?:either )?version 3.*" ]
  exclusions := gplExclusions

/-- The Lesser General Public License of GNU. -/
def lgpl : Rule where
  licenses :=
    [ nameTag "GNU (?:Lesser|Library) General Public License",
      spdx "LGPL.*",
      ".*LGPL.*",
      ".*gnu (?:library|lesser) general public licen[cs]e.*" ]

/-- The Lucent Public License, version 1.02. -/
def lucent : Rule where
  licenses :=
    [ nameTag "LPL-1[.]02",
      spdx "LPL-1[.]02",
      "https?://plan9[.]bell-labs[.]com/plan9dist/license[.]html",
      "https?://(?:www[.])?opensource[.]org/licenses/LPL-1[.]02",
      "This software is (?:also )?made available under the Lucent Public License,? version" ++
        " 1[.]02",
      "Lucent Public License,? version 1[.]02",
      "Lucent Public License v1[.]02" ]

/-- The Sun Industry Standards Source License. -/
def sissl : Rule where
  licenses := ["\\bSun Industry Standards Source Licen[cs]e"]

/-- The Server Side Public License. -/
def sspl : Rule where
  licenses :=
    [ ".*Server Side Public Licen[cs]e.*",
      spdx "SSPL-1[.]0",
      openQuote ++ "?This License" ++ closeQuote ++
        "? refers to (?:the )?Server Side Public License[,;:.]?",
      "If you make the functionality of the Program (?:or a modified version )?available to" ++
        " third parties as a service,? you must make the Service Source Code available",
      openQuote ++ "?Service Source Code" ++ closeQuote ++
        "? means the Corresponding Source for the Program(?: or the modified version)?,? and" ++
        " the Corresponding Source for all programs that you use to make the Program",
      "(?:https?://)?(?:www[.])?mongodb[.]com/licensing/server-side-public-license",
      "SSPL-\\d[.]?\\d?",
      "This program is free software[,.;:]? you can redistribute it and/or modify it under" ++
        " the terms of the Server Side Public License.*",
      "You must comply with the Server Side Public License in all respects" ]

/-- The Open Watcom licence. -/
def watcom : Rule where
  licenses :=
    [ spdx "Watcom-1[.]0",
      ".*Sybase Open Watcom Public License.*",
      ".*automatically without notice if You[,;]? at any time during the term of this" ++
        " Licen[cs]e[,;]? commence an action for patent infringement [(]?including as a cross" ++
        " claim or counterclaim[)]?.*" ]

end NoticeScan.Catalogue
