/-!
# Usage and help texts
-/

namespace Fakery.Command

def programName : String := "autofake"

def mainUsage : String :=
  "usage: autofake [-h] [-v] [--log-file LOG_FILE] \x7bexpand,inspect,serve\x7d ...\n"

def mainHelp : String :=
  mainUsage ++ "
Generate static fake() constructors for @AutoFake Swift declarations.

positional arguments:
  \x7bexpand,inspect,serve\x7d
    expand              Expand @AutoFake declarations in a Swift file or
                        source tree.
    inspect             List annotated declarations with their generation
                        strategy.
    serve               Run the HTTP expansion service (requires the 'service'
                        extra).

options:
  -h, --help            show this help message and exit
  -v, --verbose         Increase log verbosity for troubleshooting.
  --log-file LOG_FILE   Also write a DEBUG-level log of the run to this file.
"

def expandUsage : String :=
  "usage: autofake expand [-h] [-v] [--log-file LOG_FILE]
                       [--output-dir OUTPUT_DIR] [--dry-run]
                       [path]
"

def expandHelp : String :=
  expandUsage ++ "
positional arguments:
  path                  Swift file or directory to expand (defaults to current
                        directory).

options:
  -h, --help            show this help message and exit
  -v, --verbose         Increase log verbosity for troubleshooting.
  --log-file LOG_FILE   Also write a DEBUG-level log of the run to this file.
  --output-dir OUTPUT_DIR
                        Write expanded sources into this directory, mirroring
                        the input layout.
  --dry-run             Print a unified diff of the changes without writing
                        anything.
"

def inspectUsage : String :=
  "usage: autofake inspect [-h] [-v] [--log-file LOG_FILE] [--json] [path]\n"

def inspectHelp : String :=
  inspectUsage ++ "
positional arguments:
  path                 Swift file or directory to inspect (defaults to current
                       directory).

options:
  -h, --help           show this help message and exit
  -v, --verbose        Increase log verbosity for troubleshooting.
  --log-file LOG_FILE  Also write a DEBUG-level log of the run to this file.
  --json               Emit the report as JSON.
"

def serveUsage : String :=
  "usage: autofake serve [-h] [-v] [--log-file LOG_FILE] [--host HOST]
                      [--port PORT]
"

def serveHelp : String :=
  serveUsage ++ "
options:
  -h, --help           show this help message and exit
  -v, --verbose        Increase log verbosity for troubleshooting.
  --log-file LOG_FILE  Also write a DEBUG-level log of the run to this file.
  --host HOST          Interface to bind.
  --port PORT          Port to listen on.
"

end Fakery.Command
