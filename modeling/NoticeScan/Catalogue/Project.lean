import NoticeScan.Catalogue.Rule

/-!
# Licences and owners of single projects

Licences that a project or an organisation has written for itself, and owners known by name.
-/

namespace NoticeScan.Catalogue

/-- The open source project of Android. -/
def android : Rule where
  owners :=
    [ "Android(?:-x86)? Open(?: |-)Source Project",
      "LK Trusty Authors" ]
  licenses := ["Android Software Development Kit Licen[cs]e Agreement"]

/-- The two licences of Clang and LLVM. -/
def clang : Rule where
  licenses :=
    [ "This file is dual licensed under the MIT and the University of Illinois Open Source" ++
        " Licenses[,.;:]?",
      "to deal with the Software without restriction,? including without limitation" ]

/-- The Eclipse Distribution License. -/
def edl : Rule where
  licenses :=
    [ "https?://www[.]eclipse[.]org/org/documents/edl-v10[.]php",
      "Eclipse Distribution Licen[cs]e(?: -)? v? ?1[.]0" ]

/-- The placeholder for an owner. -/
def placeholder : Rule where
  owners := ["Your Company[.]?"]

/-- The FreeType licence. -/
def freeType : Rule where
  owners := ["The FreeType Project(?: [(]?www[.]freetype[.]org[)]?)?[,;:.]?"]
  licenses :=
    [ spdx "FTL",
      nameTag "(?:The )?Freetype Project",
      nameTag "FTL",
      "This license was inspired by the BSD,? Artistic,? and IJG [(]?Independent JPEG" ++
        " Group[)]? licenses,? which all encourage inclusion and use of free software in" ++
        " commercial and freeware products alike[,;:.]?",
      "you must acknowledge somewhere in your documentation that you have used the FreeType" ++
        " code[.;:]?",
      "The FreeType Project LICENSE",
      "The FreeType Project is distributed in several archive packages[,;.:]?",
      "This file is part of the FreeType project,? and may only be used,? modified,? and" ++
        " distributed under the terms of the FreeType project license[,.;:]?" ]

/-- Google as an owner. -/
def google : Rule where
  owners :=
    [ "Google,? Inc[.]?",
      "Google LLC" ]

/-- The licence of OpenSSL. -/
def openssl : Rule where
  owners := ["The OpenSSL Project[,.;:]?"]
  licenses :=
    [ nameTag "OpenSSL",
      spdx "OpenSSL",
      "https?://(?:www[.])?openssl[.]org/source/license[.]html",
      "Licensed under the OpenSSL license(?: [(]?the " ++ openQuote ++ "?License" ++
        closeQuote ++ "?[)]?)?[,.;:]?",
      openQuote ++
        "?This product includes software developed by the OpenSSL Project for use in the" ++
        " OpenSSL Toolkit[,;:.]?(?: [(]?https?://(?:www[.])?openssl[.]org(?:/| )?[)]?" ++
        closeQuote ++ "?)?",
      "The names " ++ openQuote ++ "?OpenSSL Toolkit" ++ closeQuote ++ "? and " ++ openQuote ++
        "?OpenSSL Project" ++ closeQuote ++ "? must not be used to endorse or promote",
      "Original SSLeay License",
      "OpenSSL License" ]

/-- The Python Software Foundation as an owner. -/
def psf : Rule where
  owners := ["Python Software Foundation"]

/-- The licence of the Python Software Foundation. -/
def psfl : Rule where
  licenses :=
    [ "(?:The )?PSF Licen[cs]e",
      ".*Python Software Foundation license(?: version \\d)?[,.;:]?.*",
      ".*Permission to use[,;]? copy[,;]? modify[,;]? and distribute this Python software" ++
        " and its associated documentation for any purpose.*" ]

/-- The licence of the Unicode data files. -/
def unicode : Rule where
  licenses :=
    [ spdx "Unicode-DFS-\\d\x7b4\x7d",
      spdx "Unicode-TOU",
      "https?://(?:www[.])?unicode[.]org/copyright[.]html",
      "UNICODE,? INC[.]? LICENSE AGREEMENT(?: -)? DATA FILES AND SOFTWARE",
      "Permission is hereby granted,? free of charge,? to any person obtaining a copy of" ++
        " the Unicode data files and any associated documentation",
      "Certain documents and files on this website contain a legend indicating that " ++
        openQuote ++ "?Modification is permitted[,;:.]?" ++ closeQuote ++ "?",
      "the particular set of data files known as the " ++ openQuote ++
        "?Unicode Character Database" ++ closeQuote ++ "? can be found in",
      "Each version of the Unicode Standard has further specifications of rights and" ++
        " restrictions of use[,;:.]?",
      "Unicode License Agreement(?: -)? Data Files and Software(?: [(]?\\d\x7b4\x7d[)]?)?",
      "Unicode Terms of Use" ]

/-- The licences of the World Wide Web Consortium. -/
def w3c : Rule where
  owners :=
    [ "World Wide Web Consortium[,.;:]?",
      "Massachusetts Institute of Technology,? European Research Consortium for Informatics" ++
        " and Mathematics, Keio University" ]
  licenses :=
    [ spdx "W3C(?:-(?:19980720|20021231|20150513))?",
      nameTag " W3C(?:-(?:19980720|20021231|20150513))?",
      "https?://(?:www[.])?opensource[.]org/licenses/W3C",
      "https?://(?:www[.])?w3[.]org/Consortium/Legal/copyright-software-19980720[.]html",
      "https?://(?:www[.])?w3[.]org/Consortium/Legal/2002/copyright-software-20021231[.]html",
      "https?://(?:www[.])?w3[.]org/Consortium/Legal/2015/copyright-software-and-document",
      "If none exist,? a short notice of the following form",
      "If none exist,? the W3C Software Short Notice should be included",
      "If none exist,? the W3C Software and Document Short Notice should be included[.]?",
      "W3C(?:®|[(]R[)])? SOFTWARE (?:NOTICE AND )?LICEN[CS]E(?:" ++
        " [(]?(?:1998-07-20|2002-12-31|2015-05-13)[)]?)?" ]

/-- The licence of the Zend Engine. -/
def zend : Rule where
  licenses :=
    [ nameTag "Zend(?: Engine)? License(?: (?:v|version )2[.]00?)?",
      nameTag "Zend(?:-2[.]00?)?",
      spdx "Zend-2[.]0",
      "https?://(?:www[.])?zend[.]com/license/2_00[.]txt",
      "Zend (?:Engine )?License,? v2[.]00?",
      "The Zend Engine License,? version 2[.]00?" ]

/-- The Zope Public License. -/
def zope : Rule where
  licenses :=
    [ nameTag "Zope Public License,?(?: version \\d[.]?\\d?)?",
      nameTag "ZPL-\\d[.]?\\d?",
      spdx "ZPL-\\d[.]?\\d?",
      "https?://(?:www[.])?opensource[.]org/licenses/ZPL-\\d[.]?\\d?",
      "This product includes software developed by Zope Corporation",
      "Names associated with Zope or Zope Corporation must not be used",
      "The name Zope Corporation ?[(]tm[)] must not be used",
      "Names of the copyright holders must not be used to endorse or promote products" ++
        " derived from this software without prior written permission from the copyright" ++
        " holders[,;:.]?",
      "Zope Public License(?: [(]?ZPL[)]?)?(?: Version)?(?: \\d[.]?\\d?)?" ]

end NoticeScan.Catalogue
