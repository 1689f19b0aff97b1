import TimeJournal.CommandLine.Run

/-! # The command line

`main` reads the options and the file, runs, and writes what the run gives. -/

namespace TimeJournal.CommandLine

/-- The words that an option may have as its value, as the help shows them. -/
def choices (words : List String) : String := "\x7b" ++ ",".intercalate words ++ "\x7d"

/-- How the tool is called. -/
def usage : String :=
  let exports := choices ["json", "csv"]
  let formats := choices ["oneline", "fancy", "json"]
  let colors := choices (ColorChoice.all.map ColorChoice.name)
  s!"usage: journalint [-h] [--fix | --export {exports}]\n" ++
    s!"                  [--split-activity-prefixes] [--format {formats}]\n" ++
    s!"                  [--rule RULE] [--color {colors}] [-v]\n" ++
    "                  FILE\n"

/-- The help text. -/
def helpText : String :=
  let exports := choices ["json", "csv"]
  let formats := choices ["oneline", "fancy", "json"]
  let colors := choices (ColorChoice.all.map ColorChoice.name)
  usage ++
    "\nLint, fix and export plain-text time-tracking journals.\n\n" ++
    "positional arguments:\n" ++
    "  FILE                  journal file to check\n\n" ++
    "options:\n" ++
    "  -h, --help            show this help message and exit\n" ++
    "  --fix                 apply auto-fixes and rewrite FILE in place\n" ++
    s!"  --export {exports}   write the entries to stdout in the given format\n" ++
    "  --split-activity-prefixes\n" ++
    "                        with --export, move 'prefix: ' parts of the activity\n" ++
    "                        into codes\n" ++
    s!"  --format {formats}\n" ++
    "                        diagnostic report format (default: oneline)\n" ++
    "  --rule RULE           report only diagnostics of this rule (repeatable)\n" ++
    s!"  --color {colors}\n" ++
    "                        colorize terminal output (default: auto)\n" ++
    "  -v, --verbose         log progress to stderr (-v info, -vv debug)\n"

/-- The state of a file on disk. -/
def readState (name : String) : IO FileState := do
  if name.contains '\x00' then return .missing
  try
    return .content (← IO.FS.readBinFile name)
  catch e =>
    match e with
    | .noFileOrDirectory .. => return .missing
    | .inappropriateType _ code _ => return if code = 20 then .notDirectory else .directory
    | .invalidArgument _ code _ => if code = 36 then return .nameTooLong else throw e
    | e => throw e

/-- The console that the tool was called on. -/
def readConsole : IO Console := do
  let stdout ← IO.getStdout
  let stderr ← IO.getStderr
  return ⟨← stdout.isTty, ← stderr.isTty, (← IO.getEnv "NO_COLOR").isSome⟩

/-- Carries out what the options ask for. -/
def runOptions (o : Options) : IO UInt32 := do
  let name := String.ofList o.path.toText
  match execute (← readConsole) o (← readState name) with
  | .error fault =>
    IO.eprint (complaint fault.message)
    return fault.exit.toUInt32
  | .ok outcome =>
    if let some text := outcome.rewritten then IO.FS.writeFile name text
    IO.eprint outcome.stderr
    IO.print outcome.stdout
    return outcome.exit.toUInt32

end TimeJournal.CommandLine

open TimeJournal.CommandLine in
/-- The entry point. -/
def main (words : List String) : IO UInt32 :=
  match Options.parse words with
  | .ok o => runOptions o
  | .error stop => do
    match stop with
    | .help => IO.print helpText
    | .usage fault => IO.eprint s!"{usage}journalint: error: {fault.message}\n"
    return stop.exit.toUInt32
