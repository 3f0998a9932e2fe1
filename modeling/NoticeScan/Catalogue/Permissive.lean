import NoticeScan.Catalogue.Rule

/-!
# Permissive licences

Licences that allow nearly any use on condition of a notice, and the owners that go with them.
-/

namespace NoticeScan.Catalogue

/-- The Academic Free License, version 2.1. -/
def afl21 : Rule where
  licenses :=
    [ spdx "AFL-2[.]1",
      nameTag "AFL-2[.]1",
      "Academic Free License 2[.]1" ]

/-- The Academic Free License, version 3.0. -/
def afl30 : Rule where
  licenses :=
    [ spdx "AFL-3[.]0",
      nameTag "AFL-3[.]0",
      "Academic Free Licen[cs]e 3[.]0" ]

/-- The Apache licence, version 1.1. -/
def apache11 : Rule where
  licenses :=
    [ spdx "Apache-1[.]1?",
      nameTag "Apache(?: Software)?(?: Public)?(?: Licen[cs]e)?,?(?: |-)1[.]1",
      nameTag "(?:The )?Apache(?: Software)?(?: Public)? Licen[cs]e,? Version 1[.]1",
      "http://www[.]apache[.]org/licenses/LICENSE-1[.]1",
      "(?:the )?Apache 1[.]1 Licen[cs]e",
      ".*Licen[cs]ed under (?:both )?(?:the )?Apache Licen[cs]e,? version 1[.]1",
      ".+Licen[cs]ed under (?:both )?(?:the )?Apache Licen[cs]e v1[.]1",
      ".+licen[cs]ed under (?:the )?Apache 1[.]1",
      "(?:the )?Apache(?: Software)?(?: Public)? Licen[cs]e,? Version 1[.]1",
      "(?:the )?Apache(?: Software)?(?: Public)? Licen[cs]e,? v1[.]1",
      "^terms of the Apache 1[.]1 licen[cs]e" ]

/-- The Apache licence, version 2.0. -/
def apache2 : Rule where
  owners :=
    [ "(?:by )?(?:The )?Apache Software Foundation.?",
      "Apache Software Foundation.? This product includes software developed (?:by|at) The" ++
        " Apache Software Foundation" ]
  licenses :=
    [ spdx "Apache-2[.]?[0]?",
      nameTag "Apache(?: Software)?(?: Public)?(?: Licen[cs]e)?,?(?: |-)2[.]?[0]?",
      nameTag "(?:The )?Apache(?: Software)?(?: Public)? Licen[cs]e,? Version 2[.]?[0]?",
      "https?://www[.]apache[.]org/licenses/LICENSE-2[.]0",
      "Apache 2[.]?[0]? Licen[cs]e",
      ".*Licen[cs]ed under (?:both )?(?:the )?Apache Licen[cs]e,?(?: version 2[.]?0?)?",
      ".+Licen[cs]ed under (?:both )?(?:the )?Apache Licen[cs]e" ++
        " v2[.]?(?:[^\\W_]\x7b1,30\x7d)?",
      ".+licen[cs]ed under (?:the )?Apache 2[.]?",
      ".+licen[cs]es this file to you under (?:the )?Apache Licen[cs]e,?",
      "Apache(?: Software)?(?: Public)? Licen[cs]e,? Version 2[.]?[0]?",
      "^apache2(?:-android)?",
      "^the apache licen[cs]e",
      "^terms of the Apache 2[.]?[0]? licen[cs]e",
      ".+under the terms of (?:either )?the Apache Licen[cs]e[,.;]?" ]
  exclusions := [notAContributionOwner]

/-- The Artistic licence. -/
def artistic : Rule where
  licenses :=
    [ spdx "Artistic-[12][.]?[0]?",
      nameTag "Artistic-[12][.]?[0]?",
      "(?:The )?" ++ openQuote ++ "?Artistic Licen[cs]e" ++ closeQuote ++ "?(?: [12][.]?[0]?)?" ]

/-- The BSD licences. -/
def bsd : Rule where
  licenses :=
    [ nameTag "BSD \\d-clause(?: License)?",
      nameTag "BSD(?: |-)style(?: License)?",
      nameTag "(?:New )?BSD(?: New)?(?: Licen[cs]e)?",
      nameTag "Berkeley Software Distribution [(]BSD[)] Licen[cs]e",
      spdx "BSD-2-Clause",
      spdx "BSD-2-Clause-FreeBSD",
      spdx "BSD-3-Clause",
      spdx "BSD-4-Clause",
      "^BSD(?:[.]|, see LICEN[CS]E for (?:more )?details[.])?",
      ".*under the terms and conditions of the BSD Licen[cs]e.*",
      ".*(?:\\d-clause |a )?BSD (?:\\d-clause )?licen[cs]e.*",
      ".*Redistribution and use in source and binary forms,? with or without modification,?" ++
        " are permitted provided that the following conditions are met[:]?",
      ".*This header is BSD licen[cs]ed so anyone can use the definitions to implement" ++
        " compatible drivers servers[.:]?.*",
      ".*Redistribution and use is allowed according to the terms of the (?:\\d-clause" ++
        " )?BSD licen[cs]e[.:]?.*",
      ".*(?:[-\\w] )?redistributions (?:of|in) source code must retain the" ++
        " (?:(?:above|accompanying) )?copyright notice(?: unmodified)?[,.:;]? this list of" ++
        " conditions[,.;:]? and the following disclaimers?[,.;:]? (?:[-\\w] )?redistributions" ++
        " (?:in|of) binary form must reproduce the (?:above|accompanying) copyright" ++
        " notice[,.;:]? this list of conditions[,.:;]? and the following disclaimer in the" ++
        " documentation[,.;:]? and(?: |[/])or other materials(?: provided with the" ++
        " distribution)?[,.:;]\x7b0,3\x7d" ]

/-- The Boost licence. -/
def boost : Rule where
  licenses :=
    [ spdx "BSL-1[.]?0?",
      nameTag "Boost(?:,? Version 1[.]?0?)?",
      nameTag "Boost Software License(?:,? Version 1[.]?0?)?",
      nameTag "BSL-1[.]?0?",
      "https?://www[.]boost[.]org/LICENSE_1_0[.]txt(?: [(]?Boost license[)]?)?",
      "Boost Software License 1[.]?0?.*",
      ".*(?:The )?Boost Software License(?:,| ?-)?(?: Version 1[.]?0?)?" ]

/-- The ISC licence. -/
def isc : Rule where
  licenses :=
    [ nameTag "(?:The )?ISC(?: Licen[cs]e)?",
      spdx "ISC",
      "https?://(?:www[.])?spdx[.]org/licenses/ISC",
      "(?:The )?ISC Licen[cs]e",
      "Files that are completely new have a Google copyright and an ISC license[,;:.]?",
      "ISC license used for completely new code in BoringSSL[,.;:]?",
      "this file is available under an ISC license[,;:.]?",
      "ISC" ]

/-- The licence with the clause on good and evil. -/
def json : Rule where
  licenses := ["The Software shall be used for Good,? not Evil[.]?"]

/-- The licence of libtiff. -/
def libtiff : Rule where
  licenses :=
    [ nameTag "libtiff(?: license)?",
      spdx "libtiff",
      "https?://(?:www[.])?fedoraproject[.]org/wiki/Licensing/libtiff",
      "Permission to use,? copy,? modify,? distribute,? and sell this software and its" ++
        " documentation for any purpose is hereby granted without fee,? provided that [(]i[)]" ++
        " the above copyright notices and this permission notice appear in all copies of the" ++
        " software and related documentation,? and [(]ii[)] the names of Sam Leffler and" ++
        " Silicon Graphics may not be used in any advertising" ]

/-- The MIT licence. -/
def mit : Rule where
  licenses :=
    [ nameTag "(?:The )?MIT Licen[cs]e(?: [(]MIT[)])?",
      nameTag "MIT",
      spdx "MIT",
      "http://www[.]opensource[.]org/licenses/mit-license[.]php",
      "^the mit licen[cs]e(?:[:] http://www[.]opensource[.]org/licenses/mit-license[.]php)?",
      "^MIT licen[cs]e[,.;:]? http://www[.]ibiblio[.]org/pub/Linux/LICENSE",
      ".*under (?:(?:the|this) )?(?:terms of )?(?:the )?mit (?:open source" ++
        " )?licen[cs]e[,.;:]?.*",
      ".*MIT licen[cs]ed",
      ".*terms of (?:(?:the|this) )?mit licen[cs]e[,.;:]?.*",
      ".*this code is licen[cs]ed under the mit licen[cs]e[,;.:]?.*",
      ".*the mit or psf open source licen[cs]es[,.]?.*",
      ".*Dual licen[cs]ed under the MIT or.*",
      ".*Use of this software is governed by the MIT licen[cs]e[,.;:]?.*",
      ".*This library is free software[,.;:]? you can redistribute it and or modify it" ++
        " under the terms of the MIT licen[cs]e[,.;:]?.*",
      ".*may be distributed under the MIT or PSF open source licen[cs]es[,.;:]?.*",
      ".*permission is (?:hereby )?granted[,;]? free of charge[,;]? to any person.*",
      "(?:the mit licen[cs]e )?permission is (?:hereby )?granted[,;]? free of charge[,;]?" ++
        " to any person obtaining a copy of this software and associated documentation files" ++
        " [(]?the " ++ openQuote ++ "?software" ++ closeQuote ++
        "[)]?[,;]? to deal (?:in|with) the software without restriction[,;.:]? including" ++
        " without limitation the rights to use[,;]? copy[,;]? modify[,;]? merge[,;]?" ++
        " publish[,;]? distribute[,;]? sublicense[,;]? and(?: |[/])or sell copies of the" ++
        " software[,;]? and to permit persons to whom the software is furnished to do" ++
        " so[,;.:]? subject to the following conditions[,;.:]? the above copyright" ++
        " notice[,;]? and this permission notice shall be included in all copies[,;]? or" ++
        " substantial portions of the software[,;.:]?",
      ".*permission to use[,;]? copy[,;]? modify[,;]? (?:and )?distribute (?:and sell" ++
        " )?this software (?:and its documentation )?(?:for any purpose )?(?:(?:and|with or)" ++
        " without fee )?is (?:hereby )?granted[,;]? (?:without fee )?provided that the above" ++
        " copyright notice.*",
      ".*I hereby give permission[,;]? free of charge[,;]? to copy[,;]? modify[,;]? and" ++
        " redistribute this software[,;]? in source or binary form[,;]? provided that the" ++
        " above copyright notice and the following disclaimer are included.*" ]

/-- The Microsoft Public License. -/
def microsoft : Rule where
  licenses :=
    [ nameTag "(?:The )?Microsoft Public Licen[cs]e",
      nameTag "MS-PL",
      spdx "MS-PL" ]

/-- The licence of the University of Illinois. -/
def ncsa : Rule where
  licenses :=
    [ nameTag "NCSA",
      spdx "NCSA",
      "https?://otm[.]illinois[.]edu/uiuc_openSource",
      "https?://(?:www[.])?opensource[.]org/licenses/NCSA",
      "University of Illinois[/]NCSA Open Source Licen[cs]e",
      "University of Illinois NCSA Open Source Licen[cs]e",
      "Redistributions of source code must retain the above copyright notice,? this list of" ++
        " conditions and the following disclaimers[,;:.]?" ]

/-- The Universal Permissive License. -/
def upl : Rule where
  licenses :=
    [ nameTag "UPL(?:-1[.]0)?",
      spdx "UPL-1[.]0",
      "Universal Permissive License v1[.]0",
      "The above copyright notice and either this complete permission notice or at a" ++
        " minimum a reference to the UPL must be included in all copies",
      "The Universal Permissive License(?: [(]?UPL[)]?)?,?(?: Version 1[.]0)?" ]

/-- The X.Net licence. -/
def xnet : Rule where
  licenses :=
    [ nameTag "X[.]Net(?: Licen[cs]e)?",
      nameTag "Xnet",
      spdx "Xnet",
      "https?://(?:www[.])?opensource[.]org/licenses/Xnet",
      "X[.]Net Licen[cs]e" ]

/-- The zlib licence. -/
def zlib : Rule where
  licenses :=
    [ nameTag "zlib Licen[cs]e",
      nameTag "zlib/libpng Licen[cs]e(?: with Acknowledgement)?",
      spdx "Zlib",
      spdx "zlib-acknowledgement",
      "https?://(?:www[.])?opensource[.]org/licenses/zlib-license[.]php",
      "https?://(?:www[.])?zlib[.]net/zlib_license[.]html",
      "https?://(?:www[.])?opensource[.]org/licenses/Zlib",
      "https?://(?:www[.])?fedoraproject[.]org/wiki/Licensing/ZlibWithAcknowledgement",
      "Permission is granted to anyone to use this software for any purpose,? including" ++
        " commercial applications,? and to alter it and redistribute it freely,? subject to" ++
        " the following restrictions[,.;:]?",
      "(?:The )?zlib/libpng License(?: with Acknowledgement)?",
      "(?:The )?zlib/libpng License [(]Zlib[)]",
      "zlib licen[cs]e" ]

end NoticeScan.Catalogue
