import TimeJournal.Export.Format
import TimeJournal.Report
import TimeJournal.Text.DecimalDigit
import TimeJournal.Text.Quoted

/-! # Options of the command line

The words of a command line are sorted into `Token`s, which are then read from left to right.

* A long option may be cut short as long as it stays unambiguous, and its value may be attached with
  an equals sign. Short options may share a word.
* The letters of short options may be followed in their word by something else, which is left over
  unless it begins with an equals sign or a dash: no short option has a value.
* A word `--` ends the options; every word after it is an operand. So is a word that cannot be an
  option: a dash, a negative number, and a word with a space that begins no option.
* Words that nothing can be done with are left over, and are named in the order in which they stand.
* `Options.parse` gives the options, or why there are none. A fault is found where its word stands, so
  asking for help comes before every fault of a later word. -/

namespace TimeJournal.CommandLine

/-- The options. -/
inductive OptionName where
  | help
  | fix
  | exportAs
  | split
  | format
  | rule
  | color
  | verbose
  deriving DecidableEq, Repr

namespace OptionName

/-- All options. -/
def all : List OptionName := [.help, .fix, .exportAs, .split, .format, .rule, .color, .verbose]

/-- The long form of an option. -/
def long : OptionName → String
  | .help => "--help"
  | .fix => "--fix"
  | .exportAs => "--export"
  | .split => "--split-activity-prefixes"
  | .format => "--format"
  | .rule => "--rule"
  | .color => "--color"
  | .verbose => "--verbose"

/-- The forms of an option, the short one first. -/
def forms : OptionName → List String
  | .help => ["-h", "--help"]
  | .verbose => ["-v", "--verbose"]
  | name => [name.long]

/-- How an option is named in a message. -/
def shown (name : OptionName) : String := "/".intercalate name.forms

/-- The option with a letter as its short form. -/
def ofLetter : Char → Option OptionName
  | 'h' => some .help
  | 'v' => some .verbose
  | _ => none

/-- The options of the letters at the front of a text, and what follows these letters. -/
def ofLetters : List Char → List OptionName × List Char
  | [] => ([], [])
  | c :: r =>
    match ofLetter c with
    | some name =>
      let (names, rest) := ofLetters r
      (name :: names, rest)
    | none => ([], c :: r)

/-- Whether an option has a value. -/
def takesValue : OptionName → Bool
  | .exportAs => true
  | .format => true
  | .rule => true
  | .color => true
  | _ => false

/-- The options with their forms that begin with a text. -/
def beginningWith (s : List Char) : List (OptionName × String) :=
  (all.flatMap fun name => name.forms.map fun form => (name, form)).filter fun entry =>
    s.isPrefixOf entry.2.toList

end OptionName

/-- When a report is in color. -/
inductive ColorChoice where
  | auto
  | always
  | never
  deriving DecidableEq, Repr

namespace ColorChoice

/-- All choices. -/
def all : List ColorChoice := [.auto, .always, .never]

/-- The word for a choice. -/
def name : ColorChoice → String
  | .auto => "auto"
  | .always => "always"
  | .never => "never"

/-- Whether a report is in color: unless that is settled, it is if it goes to a terminal and the
environment does not ask for no color. -/
def isOn (choice : ColorChoice) (terminal noColor : Bool) : Bool :=
  match choice with
  | .always => true
  | .never => false
  | .auto => terminal && !noColor

end ColorChoice

/-- Why a command line cannot be carried out. -/
inductive UsageFault where
  | ambiguous (word : String) (forms : List String)
  | missingValue (option : OptionName)
  | unexpectedValue (option : OptionName) (value : String)
  | badValue (option : OptionName) (value : String)
  | exclusive (option earlier : OptionName)
  | noFile
  | unrecognized (words : List String)
  deriving DecidableEq, Repr

/-- What is wrong with the value of an option. -/
def badValueMessage (option : OptionName) (value : String) : String :=
  let shown := Text.showQuoted value
  match option with
  | .exportAs => s!"invalid ExportFormat value: {shown}"
  | .format => s!"invalid OutputFormat value: {shown}"
  | _ =>
    let choices := ", ".intercalate (ColorChoice.all.map ColorChoice.name)
    s!"invalid choice: {shown} (choose from {choices})"

/-- The wording of a fault. -/
def UsageFault.message : UsageFault → String
  | .ambiguous word forms =>
    let candidates := ", ".intercalate forms
    s!"ambiguous option: {word} could match {candidates}"
  | .missingValue option => s!"argument {option.shown}: expected one argument"
  | .unexpectedValue option value =>
    let attached := Text.showQuoted value
    s!"argument {option.shown}: ignored explicit argument {attached}"
  | .badValue option value => s!"argument {option.shown}: " ++ badValueMessage option value
  | .exclusive option earlier =>
    s!"argument {option.shown}: not allowed with argument {earlier.shown}"
  | .noFile => "the following arguments are required: FILE"
  | .unrecognized words => "unrecognized arguments: " ++ " ".intercalate words

/-! ### Sorting the words -/

/-- What a word of the command line is. -/
inductive Token where
  | operand (word : String)
  | separator
  | option (name : OptionName) (attached : Option String)
  | letters (first : OptionName) (more : List OptionName) (rest : List Char)
  | ambiguous (word : String) (forms : List String)
  | unknown (word : String)
  deriving DecidableEq, Repr

/-- Whether a word is a negative number, in the digits of any script; a line feed at its end does
not matter. -/
def isNegativeNumber (s : List Char) : Bool :=
  match s with
  | '-' :: r =>
    let body := if r.getLast? = some '\n' then r.dropLast else r
    match body.span Text.isDecimalDigit with
    | (whole, []) => !whole.isEmpty
    | (_, '.' :: decimals) => !decimals.isEmpty && decimals.all Text.isDecimalDigit
    | _ => false
  | _ => false

/-- A word that begins no option. -/
def Token.ofOther (word : String) : Token :=
  if isNegativeNumber word.toList || word.toList.contains ' ' then .operand word else .unknown word

/-- A word that begins with two dashes. -/
def Token.ofLong (word : String) : Token :=
  match OptionName.all.find? fun name => name.long == word with
  | some name => .option name none
  | none =>
    let key := word.toList.takeWhile (· != '=')
    let attached :=
      match word.toList.dropWhile (· != '=') with
      | _ :: value => some (String.ofList value)
      | [] => none
    match OptionName.all.find? fun name => name.long.toList == key with
    | some name => .option name attached
    | none =>
      match OptionName.beginningWith key with
      | [(name, _)] => .option name attached
      | [] => Token.ofOther word
      | entries => .ambiguous word (entries.map Prod.snd)

/-- A word that begins with one dash, from what follows the dash. In front of an equals sign the dash
alone is an option that is cut short, as every option may be. -/
def Token.ofShort (letters : List Char) (word : String) : Token :=
  match OptionName.ofLetters letters with
  | (first :: more, rest) => .letters first more rest
  | ([], '=' :: _) => .ambiguous word ((OptionName.beginningWith ['-']).map Prod.snd)
  | ([], _) => Token.ofOther word

/-- What a word is, if no `--` comes before it. -/
def Token.ofWord (word : String) : Token :=
  match word.toList with
  | ['-', '-'] => .separator
  | '-' :: '-' :: _ => Token.ofLong word
  | '-' :: c :: r => Token.ofShort (c :: r) word
  | _ => .operand word

/-- What the words of a command line are. -/
def tokens : List String → List Token
  | [] => []
  | word :: words =>
    match Token.ofWord word with
    | .separator => .separator :: words.map Token.operand
    | token => token :: tokens words

/-! ### Reading the tokens -/

/-- What a command line asks for. -/
structure Options where
  file : String
  fix : Bool
  exportAs : Option ExportFormat
  split : Bool
  format : ReportFormat
  rules : List String
  color : ColorChoice
  verbosity : Nat
  deriving DecidableEq, Repr

/-- What the tokens read so far ask for, and the words that are left over; the file may still be
missing. -/
structure Draft where
  options : Options
  hasFile : Bool
  extra : List String
  deriving DecidableEq, Repr

/-- Why the reading of a command line ends early. -/
inductive Stop where
  | help
  | usage (fault : UsageFault)
  deriving DecidableEq, Repr

/-- The exit code of a command line whose reading ends early. -/
def Stop.exit : Stop → Nat
  | .help => 0
  | .usage _ => 64

namespace Draft

/-- The draft before the first token. -/
def init : Draft := ⟨⟨"", false, none, false, .oneline, [], .auto, 0⟩, false, []⟩

/-- Leaves words over. -/
def leave (d : Draft) (words : List String) : Draft := { d with extra := d.extra ++ words }

/-- Sets the file, if it is not set. -/
def operand (d : Draft) (word : String) : Draft :=
  if d.hasFile then d.leave [word]
  else { d with options := { d.options with file := word }, hasFile := true }

/-- Sets an option without a value. -/
def flag (d : Draft) : OptionName → Except Stop Draft
  | .help => .error .help
  | .fix =>
    if d.options.exportAs.isSome then .error (.usage (.exclusive .fix .exportAs))
    else .ok { d with options := { d.options with fix := true } }
  | .split => .ok { d with options := { d.options with split := true } }
  | .verbose => .ok { d with options := { d.options with verbosity := d.options.verbosity + 1 } }
  | name => .error (.usage (.missingValue name))

/-- The formats by their words. -/
def exportFormat? (value : String) : Option ExportFormat :=
  [ExportFormat.json, .csv].find? fun f => f.name == value

/-- The formats by their words. -/
def reportFormat? (value : String) : Option ReportFormat :=
  [ReportFormat.oneline, .fancy, .json].find? fun f => f.name == value

/-- The choices by their words. -/
def colorChoice? (value : String) : Option ColorChoice :=
  ColorChoice.all.find? fun choice => choice.name == value

/-- Sets an option with a value. -/
def value (d : Draft) (name : OptionName) (value : String) : Except Stop Draft :=
  match name with
  | .exportAs =>
    match exportFormat? value with
    | none => .error (.usage (.badValue name value))
    | some f =>
      if d.options.fix then .error (.usage (.exclusive .exportAs .fix))
      else .ok { d with options := { d.options with exportAs := some f } }
  | .format =>
    match reportFormat? value with
    | none => .error (.usage (.badValue name value))
    | some f => .ok { d with options := { d.options with format := f } }
  | .rule => .ok { d with options := { d.options with rules := d.options.rules ++ [value] } }
  | .color =>
    match colorChoice? value with
    | none => .error (.usage (.badValue name value))
    | some c => .ok { d with options := { d.options with color := c } }
  | _ => .error (.usage (.unexpectedValue name value))

/-- Sets the options with these letters one after the other. -/
def flags (d : Draft) : List OptionName → Except Stop Draft
  | [] => .ok d
  | name :: names =>
    match d.flag name with
    | .error stop => .error stop
    | .ok d => flags d names

/-- Reads tokens. The file may have `--` on either side; anywhere else that word is left over. -/
def read (d : Draft) : List Token → Except Stop Draft
  | [] => .ok d
  | .operand word :: .separator :: rest =>
    if d.hasFile then read (d.leave [word, "--"]) rest else read (d.operand word) rest
  | .separator :: .operand word :: rest =>
    if d.hasFile then read (d.leave ["--", word]) rest else read (d.operand word) rest
  | .operand word :: rest => read (d.operand word) rest
  | .separator :: rest => read (d.leave ["--"]) rest
  | .unknown word :: rest => read (d.leave [word]) rest
  | .ambiguous word forms :: _ => .error (.usage (.ambiguous word forms))
  | .letters first more after :: rest =>
    match after with
    | '=' :: value => .error (.usage (.unexpectedValue (more.getLastD first) (String.ofList value)))
    | '-' :: _ => .error (.usage (.unexpectedValue (more.getLastD first) (String.ofList after)))
    | _ =>
      match d.flags (first :: more) with
      | .error stop => .error stop
      | .ok d => read (if after.isEmpty then d else d.leave [String.ofList ('-' :: after)]) rest
  | .option name (some attached) :: rest =>
    if name.takesValue then
      match d.value name attached with
      | .error stop => .error stop
      | .ok d => read d rest
    else .error (.usage (.unexpectedValue name attached))
  | .option name none :: .operand word :: rest =>
    if name.takesValue then
      match d.value name word with
      | .error stop => .error stop
      | .ok d => read d rest
    else
      match d.flag name with
      | .error stop => .error stop
      | .ok d => read d (.operand word :: rest)
  | .option name none :: rest =>
    match d.flag name with
    | .error stop => .error stop
    | .ok d => read d rest

/-- The options of a draft; a missing file counts before words that are left over. -/
def finish (d : Draft) : Except Stop Options :=
  if !d.hasFile then .error (.usage .noFile)
  else if !d.extra.isEmpty then .error (.usage (.unrecognized d.extra))
  else .ok d.options

end Draft

/-- The options of a command line. -/
def Options.parse (words : List String) : Except Stop Options :=
  match Draft.init.read (tokens words) with
  | .error stop => .error stop
  | .ok d => d.finish

end TimeJournal.CommandLine
