import CacheLab.Numeral

/-!
# CacheLab.CommandLine.Grammar — options and their values

An argument is a long option (`--name` or `--name=value`), a short option (`-n`,
`-nvalue` or `-n=value`), two dashes, or a word. An option without a value of its
own takes the next word, or all words up to the next option if it takes many.

The values of an option are checked when the option is complete: at the next
option or at the end. An argument that no option can take is reported at once,
even if the option before it is not right.
-/

namespace CacheLab

/-- Why a command line is not carried out. -/
inductive UsageError where
  /-- There are no arguments at all. -/
  | nothingGiven
  | unknownCommand
  | unknownArgument
  /-- An option that must be given is not. -/
  | missingOption
  /-- An option that may be given once is given again. -/
  | repeatedOption
  /-- An option has no value, or the empty text where this is none. -/
  | missingValue
  /-- A value is not a number of the range. -/
  | badValue
  /-- An option that takes no value has one. -/
  | unexpectedValue
  | helpRequested
  | versionRequested
deriving DecidableEq, Repr

/-- The error in words. -/
def UsageError.message : UsageError → String
  | nothingGiven => "a command is missing: simulate or generate"
  | unknownCommand => "there is no such command"
  | unknownArgument => "an argument was not expected"
  | missingOption => "an option that must be given is missing"
  | repeatedOption => "an option is given more than once"
  | missingValue => "an option has no value"
  | badValue => "a value is not a number of the range"
  | unexpectedValue => "an option takes no value"
  | helpRequested => "there are two commands: simulate and generate"
  | versionRequested => "this program has no versions"

namespace CommandLine

/-! ## Arguments -/

/-- An argument by its form. -/
inductive Token where
  | escape
  | long (name : String) (value : Option String)
  | short (letter : Char) (rest : List Char)
  | word
deriving DecidableEq, Repr

/-- The form of an argument. -/
def Token.read (argument : String) : Token :=
  match argument.toList with
  | ['-', '-'] => escape
  | '-' :: '-' :: rest =>
    let name := String.ofList (rest.takeWhile (· ≠ '='))
    match rest.dropWhile (· ≠ '=') with
    | [] => long name none
    | _ :: value => long name (some (String.ofList value))
  | '-' :: letter :: rest => short letter rest
  | _ => word

/-- The value that stands behind the letter of a short option, if one does. -/
def attached? : List Char → Option String
  | [] => none
  | '=' :: value => some (String.ofList value)
  | value => some (String.ofList value)

/-! ## Options -/

/-- What the values of an option are. -/
inductive ValueKind where
  | text
  /-- A text that is not empty. -/
  | path
  /-- A number below `limit`; zero may have a minus sign if `signed` holds. -/
  | number (limit : Nat) (signed : Bool)
deriving DecidableEq, Repr

/-- An option. -/
structure Flag where
  long : String
  short : Option Char := none
  kind : ValueKind
  /-- Whether it takes many values, with commas between them or as several
  words, and may be given again. -/
  many : Bool := false
deriving DecidableEq, Repr

/-- A value that has been checked. -/
inductive Value where
  | text (s : String)
  | number (n : Nat)
deriving DecidableEq, Repr

/-- Reads a number below `limit`. -/
def readNumber (limit : Nat) (signed : Bool) (cs : List Char) : Except UsageError Nat :=
  let result :=
    match cs with
    | '-' :: c :: rest =>
      if signed then Numeral.readDigits 10 1 (c :: rest) 0 else .error .badDigit
    | cs => Numeral.read 10 limit cs
  result.mapError fun _ => .badValue

/-- Checks a value. -/
def ValueKind.read (kind : ValueKind) (s : String) : Except UsageError Value :=
  match kind with
  | text => .ok (.text s)
  | path => if s.isEmpty then .error .missingValue else .ok (.text s)
  | number limit signed => (readNumber limit signed s.toList).map .number

/-! ## Reading a list of arguments -/

/-- What has been read of the options of a command. -/
structure Options where
  /-- The values of the options that are complete. -/
  values : List (Flag × List Value) := []
  /-- The option that is not complete, with its values so far. -/
  pending : Option (Flag × List String) := none
deriving DecidableEq, Repr

namespace Options

/-- The values of an option that is complete. -/
def find? (o : Options) (long : String) : Option (List Value) :=
  (o.values.find? (·.1.long = long)).map (·.2)

/-- Completes an option with the given values. -/
def complete (o : Options) (flag : Flag) (given : List String) : Except UsageError Options := do
  if given.isEmpty then throw .missingValue
  let before := o.find? flag.long
  if before.isSome && !flag.many then throw .repeatedOption
  let parts := if flag.many then given.flatMap (·.splitOn ",") else given
  let values ← parts.mapM flag.kind.read
  let others := o.values.filter (·.1.long ≠ flag.long)
  return { values := (flag, before.getD [] ++ values) :: others }

/-- Completes the option that is pending. -/
def settle (o : Options) : Except UsageError Options :=
  match o.pending with
  | none => .ok o
  | some (flag, given) => o.complete flag given

/-- Begins an option, after which no more values follow if one is attached. -/
def start (o : Options) (flag : Flag) (attached : Option String) : Except UsageError Options := do
  let o ← o.settle
  match attached with
  | some value => o.complete flag [value]
  | none => return { o with pending := some (flag, []) }

/-- Takes a word as a value of the option that is pending. -/
def take (o : Options) (word : String) : Except UsageError Options :=
  match o.pending with
  | some (flag, given) =>
    if given.isEmpty || flag.many then .ok { o with pending := some (flag, given ++ [word]) }
    else .error .unknownArgument
  | none => .error .unknownArgument

/-- Asks for help, which is given unless the option before is not right. -/
def askHelp (o : Options) : Except UsageError Options := do
  let _ ← o.settle
  throw .helpRequested

/-- Reads one argument. -/
def read (flags : List Flag) (o : Options) (argument : String) : Except UsageError Options :=
  match Token.read argument with
  | .escape => .ok o
  | .word => o.take argument
  | .long "help" none => o.askHelp
  | .long "help" (some _) => .error .unexpectedValue
  | .long name value =>
    match flags.find? (·.long = name) with
    | some flag => o.start flag value
    | none => .error .unknownArgument
  | .short 'h' _ => o.askHelp
  | .short letter rest =>
    match flags.find? (·.short = some letter) with
    | some flag => o.start flag (attached? rest)
    | none => .error .unknownArgument

/-- Reads all arguments. Behind two dashes there may be none. -/
def readAll (flags : List Flag) (o : Options) : List String → Except UsageError Options
  | [] => o.settle
  | "--" :: rest => if rest.isEmpty then o.settle else .error .unknownArgument
  | argument :: rest => do (← o.read flags argument).readAll flags rest

/-! ## Values by name -/

/-- The number that an option has, or else `default`. -/
def number (o : Options) (long : String) (default : Nat) : Nat :=
  match o.find? long with
  | some (.number n :: _) => n
  | _ => default

/-- The number that an option has. -/
def number? (o : Options) (long : String) : Option Nat :=
  match o.find? long with
  | some (.number n :: _) => some n
  | _ => none

/-- The texts that an option has. -/
def texts? (o : Options) (long : String) : Option (List String) :=
  (o.find? long).map fun values => values.filterMap fun
    | .text s => some s
    | .number _ => none

/-- The text that an option has. -/
def text? (o : Options) (long : String) : Option String := (o.texts? long).bind (·.head?)

end Options

end CommandLine

end CacheLab
