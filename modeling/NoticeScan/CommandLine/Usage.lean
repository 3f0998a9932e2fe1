/-!
# Help

How the program is called, and what its options mean.
-/

namespace NoticeScan.CommandLine

/-- How the program is called. -/
def usage : String :=
  "usage: notice-scan [-h] [--rules RULES] [--output OUTPUT] [--verbose]\n" ++
  "                   paths [paths ...]\n"

/-- The text that is shown when help is asked for. -/
def help : String :=
  usage ++
  "\n" ++
  "Classify copyright and license notices in files.\n" ++
  "\n" ++
  "positional arguments:\n" ++
  "  paths                 Files to scan\n" ++
  "\n" ++
  "options:\n" ++
  "  -h, --help            show this help message and exit\n" ++
  "  --rules RULES         JSON rules file (default: no known licenses or owners)\n" ++
  "  --output OUTPUT, -o OUTPUT\n" ++
  "                        Write JSON Lines records to this file instead of\n" ++
  "                        stdout\n" ++
  "  --verbose, -v         Debug logging\n"

end NoticeScan.CommandLine
