import SchemaStitch.Keyed
import SchemaStitch.Text.Blank
import SchemaStitch.Text.Printable

/-! # Arguments of the command line

    The words of a command line are read one by one: each is a source, an option with or
    without a value attached, or the mark `--` behind which every word is a source.  Long
    options may be cut short as long as no other begins alike, and short ones may be put
    together in one word.

    Only the first run of sources is taken; sources behind a later option are refused
    like options that do not exist. -/

namespace SchemaStitch.CommandLine

/-! ## Options -/

/-- The options of the command line. -/
inductive Switch
  | help | all | dedupe | validate | output | verbose
  deriving DecidableEq, Repr

namespace Switch

/-- The names of an option. -/
def names : Switch → List Text
  | .help => ["-h", "--help"]
  | .all => ["--all"]
  | .dedupe => ["--dedupe"]
  | .validate => ["--validate"]
  | .output => ["-o", "--output"]
  | .verbose => ["-v", "--verbose"]

/-- How an option is called in messages. -/
def label (switch : Switch) : Text :=
  Text.join ['/'] switch.names

/-- Whether an option needs a value. -/
def takesValue (switch : Switch) : Bool :=
  switch = .output

/-- Every name with its option, in order. -/
def table : Keyed Switch :=
  [help, all, dedupe, validate, output, verbose].flatMap fun switch =>
    switch.names.map fun name => (name, switch)

/-- The option of a name. -/
def ofName? (name : Text) : Option Switch :=
  Keyed.get? name table

end Switch

/-- Why arguments cannot be used. -/
inductive UsageError
  | ambiguous (word : Text) (names : List Text)
  | ignoredValue (switch : Switch) (value : Text)
  | valueExpected (switch : Switch)
  | sourcesRequired
  | unrecognized (words : List Text)
  deriving DecidableEq, Repr

/-- The message about arguments that cannot be used. -/
def UsageError.message : UsageError → Text
  | .ambiguous word names =>
      "ambiguous option: " ++ word ++ " could match " ++ Text.join ", " names
  | .ignoredValue switch value =>
      "argument " ++ switch.label ++ ": ignored explicit argument " ++ value.quoted
  | .valueExpected switch => "argument " ++ switch.label ++ ": expected one argument"
  | .sourcesRequired => "the following arguments are required: sources"
  | .unrecognized words => "unrecognized arguments: " ++ Text.join [' '] words

/-! ## Words -/

/-- What a word of the command line is.  A value attached to a short option may turn out
    to be further short options. -/
inductive Word
  | source (text : Text)
  | separator
  | option (switch : Switch) (short : Bool) (value : Option Text)
  | unknown (text : Text)
  deriving DecidableEq, Repr

namespace Word

/-- The part of a word in front of its first equals sign, and the part behind it. -/
def splitValue : Text → Text × Option Text
  | [] => ([], none)
  | c :: cs =>
      if c = '=' then ([], some cs)
      else (c :: (splitValue cs).1, (splitValue cs).2)

/-- Whether digits follow the minus sign of a word, possibly with a point before the last
    of them, as in a negative number. -/
def isNegativeNumber (word : Text) : Bool :=
  match word with
  | '-' :: rest =>
      let rest := if rest.getLast? = some '\n' then rest.dropLast else rest
      let fraction := rest.dropWhile Text.isDecimal
      match fraction with
      | [] => !rest.isEmpty
      | '.' :: digits => !digits.isEmpty && digits.all Text.isDecimal
      | _ => false
  | _ => false

/-- Whether a name is that of a short option: one minus sign and one letter. -/
def isShort (name : Text) : Bool :=
  name.length = 2

/-- What a word stands for that starts with the name of one option or of several: a long
    one may be cut short, and behind a short one its value may follow at once. -/
def abbreviated (word : Text) : List (Text × Switch × Option Text) :=
  match word with
  | '-' :: '-' :: _ =>
      let (start, value) := splitValue word
      (Switch.table.filter fun entry => start.isPrefixOf entry.1).map fun (name, switch) =>
        (name, switch, value)
  | first :: letter :: value =>
      (Switch.table.filter fun entry => entry.1 == [first, letter]).map fun (name, switch) =>
        (name, switch, some value)
  | _ => []

/-- A word that starts with a minus sign and is not the name of an option. -/
def readDashed (word : Text) : Except UsageError Word :=
  match abbreviated word with
  | [(name, switch, value)] => .ok (.option switch (isShort name) value)
  | [] =>
      if isNegativeNumber word || word.contains ' ' then .ok (.source word)
      else .ok (.unknown word)
  | several => .error (.ambiguous word (several.map Prod.fst))

/-- What a word in front of any separator is. -/
def read (word : Text) : Except UsageError Word :=
  match word with
  | '-' :: _ :: _ =>
      match Switch.ofName? word with
      | some switch => .ok (.option switch (isShort word) none)
      | none =>
          match splitValue word with
          | (name, some value) =>
              match Switch.ofName? name with
              | some switch => .ok (.option switch (isShort name) (some value))
              | none => readDashed word
          | _ => readDashed word
  | _ => .ok (.source word)

/-- What the words of a command line are: all those behind a separator are sources. -/
def readAll : List Text → Except UsageError (List Word)
  | [] => .ok []
  | word :: rest =>
      if word = ['-', '-'] then .ok (.separator :: rest.map .source)
      else do
        let first ← read word
        let others ← readAll rest
        pure (first :: others)

end Word

/-! ## Options in one word -/

/-- The options that one word gives, in order, and the value that is attached to the
    last of them. -/
structure Cluster where
  switches : List Switch
  value : Option Text
  deriving DecidableEq, Repr

namespace Cluster

/-- The options given by a short option without a value of its own and what is attached
    to it: the characters are further short options, up to one that takes the rest as
    its value. -/
def ofShort (switch : Switch) : Text → Except UsageError Cluster
  | [] => .ok ⟨[switch], none⟩
  | letter :: rest =>
      match Switch.ofName? ['-', letter] with
      | none => .error (.ignoredValue switch (letter :: rest))
      | some next =>
          if next.takesValue then
            .ok ⟨[switch, next], if rest.isEmpty then none else some rest⟩
          else
            (ofShort next rest).map fun others =>
              { others with switches := switch :: others.switches }

/-- The options given by an option and what is attached to it. -/
def ofOption (switch : Switch) (short : Bool) : Option Text → Except UsageError Cluster
  | none => .ok ⟨[switch], none⟩
  | some value =>
      if switch.takesValue then .ok ⟨[switch], some value⟩
      else if short && !value.isEmpty then ofShort switch value
      else .error (.ignoredValue switch value)

/-- The option at the end that still needs a value. -/
def needy? (cluster : Cluster) : Option Switch :=
  if cluster.value.isSome then none
  else cluster.switches.getLast?.filter Switch.takesValue

end Cluster

/-! ## Arguments -/

/-- What a command line asks for. -/
structure Arguments where
  sources : List Text := []
  all : Bool := false
  dedupe : Bool := false
  validate : Bool := false
  output : Text := []
  verbosity : Nat := 0
  deriving DecidableEq, Repr

namespace Arguments

/-- Take one option into account; the value `--` counts as none. -/
def take (value : Text) (arguments : Arguments) : Switch → Arguments
  | .help => arguments
  | .all => { arguments with all := true }
  | .dedupe => { arguments with dedupe := true }
  | .validate => { arguments with validate := true }
  | .output => { arguments with output := if value = ['-', '-'] then [] else value }
  | .verbose => { arguments with verbosity := arguments.verbosity + 1 }

/-- Take options into account, in order. -/
def takeAll (value : Text) (switches : List Switch) (arguments : Arguments) : Arguments :=
  switches.foldl (take value) arguments

end Arguments

/-- Whether the sources are still to come, are coming, or lie behind. -/
inductive Stage
  | before | during | after
  deriving DecidableEq, Repr

/-- What was read so far: the arguments, the stage, and the words that were refused. -/
structure Progress where
  arguments : Arguments := {}
  stage : Stage := .before
  refused : List Text := []
  deriving DecidableEq, Repr

namespace Progress

/-- A word that is no option. -/
def source (text : Text) (progress : Progress) : Progress :=
  match progress.stage with
  | .after => { progress with refused := progress.refused ++ [text] }
  | _ =>
      { progress with
        stage := .during
        arguments := { progress.arguments with sources := progress.arguments.sources ++ [text] } }

/-- The separator. -/
def separator (progress : Progress) : Progress :=
  match progress.stage with
  | .after => { progress with refused := progress.refused ++ [['-', '-']] }
  | _ => progress

/-- Any option ends the sources. -/
def endSources (progress : Progress) : Progress :=
  match progress.stage with
  | .before => progress
  | _ => { progress with stage := .after }

/-- A word that looks like an option. -/
def unknown (text : Text) (progress : Progress) : Progress :=
  { progress.endSources with refused := progress.refused ++ [text] }

/-- Options. -/
def options (switches : List Switch) (value : Text) (progress : Progress) : Progress :=
  { progress.endSources with arguments := progress.arguments.takeAll value switches }

/-- Read words; nothing results if help is asked for, and then nothing behind is read. -/
def readWords (progress : Progress) : List Word → Except UsageError (Option Progress)
  | [] => .ok (some progress)
  | .source text :: rest => readWords (progress.source text) rest
  | .separator :: rest => readWords progress.separator rest
  | .unknown text :: rest => readWords (progress.unknown text) rest
  | .option switch short attached :: rest =>
      match Cluster.ofOption switch short attached with
      | .error error => .error error
      | .ok cluster =>
          match cluster.needy?, rest with
          | none, rest =>
              if cluster.switches.contains .help then .ok none
              else readWords (progress.options cluster.switches (cluster.value.getD [])) rest
          | some _, .source text :: rest =>
              if cluster.switches.contains .help then .ok none
              else readWords (progress.options cluster.switches text) rest
          | some needy, _ => .error (.valueExpected needy)

end Progress

/-- What a command line asks for; nothing results if it asks for help. -/
def Arguments.read (words : List Text) : Except UsageError (Option Arguments) := do
  let words ← Word.readAll words
  match ← Progress.readWords {} words with
  | none => pure none
  | some progress =>
      if progress.arguments.sources.isEmpty then throw .sourcesRequired
      else if !progress.refused.isEmpty then throw (.unrecognized progress.refused)
      else pure (some progress.arguments)

end SchemaStitch.CommandLine
