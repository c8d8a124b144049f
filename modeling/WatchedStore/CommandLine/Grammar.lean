import WatchedStore.Text.Quoted

/-!
# Command lines

A form says which options and how many operands may stand on a command line. Reading one takes apart
clusters of short options, finds the values of options, and stops at the first word that does not fit or
that asks for help. Whether options are repeated, and whether values are there and make sense, is looked
at afterwards, so a later request for help wins over such mistakes.

An option takes as its value what is attached to it, or else the next word, unless that one is an option
itself. An option that is left without a value falls back to its default, if it has one.
-/

namespace WatchedStore.CommandLine

/-- What is wrong with a command line. -/
inductive Mistake where
  | unknownArgument (word : String)
  | unknownCommand (word : String)
  | missingCommand
  | missingOperand (name : String)
  | missingValue (name : String)
  | repeated (name : String)
  | badValue (name value reason : String)

/-- A mistake in words. -/
def Mistake.message : Mistake → String
  | .unknownArgument word => "unexpected argument " ++ Text.quote word
  | .unknownCommand word => "unknown command " ++ Text.quote word
  | .missingCommand => "no command given"
  | .missingOperand name => "no " ++ name ++ " given"
  | .missingValue name => "option --" ++ name ++ " needs a value"
  | .repeated name => "option --" ++ name ++ " may stand only once"
  | .badValue name value reason => "invalid " ++ name ++ " " ++ Text.quote value ++ ": " ++ reason

/-- What a tool says instead of doing its work: it was asked about itself, or its arguments are wrong. -/
inductive Refusal where
  | help (usage : String)
  | version (line : String)
  | mistaken (m : Mistake)

/-- What an option is for. -/
inductive Purpose where
  /-- Stands at most once, without a value. -/
  | flag
  /-- Stands any number of times, without a value. -/
  | count
  /-- Has a value. -/
  | value
  | help
  | version
  deriving DecidableEq

/-- An option: a word behind two dashes, or a letter behind one. -/
structure OptionRule where
  long : String
  short : Option Char := none
  purpose : Purpose

/-- What may stand on a command line. -/
structure Form where
  /-- The words that call the tool or its command. -/
  title : String
  version : String
  options : List OptionRule := []
  /-- How many operands there may be. -/
  operands : Nat := 0
  /-- The commands; what follows one belongs to it. -/
  commands : List String := []

/-- What was found on a command line: options by their long names, in their order, and operands. -/
structure Matches where
  options : List (String × Option String) := []
  operands : List String := []

/-- What was found so far, the option that may still get a value from the next word, and whether only
operands can follow. -/
structure Progress where
  found : Matches := {}
  awaiting : Option String := none
  onlyOperands : Bool := false

namespace Progress

/-- Adds an option. -/
def met (p : Progress) (name : String) (value : Option String) : Progress :=
  { p with found := { p.found with options := p.found.options ++ [(name, value)] } }

/-- Leaves the option that awaits a value without one. -/
def settle (p : Progress) : Progress :=
  match p.awaiting with
  | some name => { p.met name none with awaiting := none }
  | none => p

end Progress

namespace Form

/-- All options, those about the tool itself included. -/
def rules (f : Form) : List OptionRule :=
  f.options ++ [⟨"help", some 'h', .help⟩, ⟨"version", some 'V', .version⟩]

/-- How a tool is called. -/
def usage (f : Form) : String :=
  let option (o : OptionRule) : String :=
    " [--" ++ o.long ++ (if o.purpose = .value then " <" ++ o.long ++ ">" else "") ++ "]"
  let commands := if f.commands.isEmpty then "" else " <" ++ String.intercalate "|" f.commands ++ ">"
  "USAGE: " ++ f.title ++ String.join (f.rules.map option) ++ commands

/-- Which tool or command this is; its words are joined by dashes. -/
def versionLine (f : Form) : String :=
  f.title.map (fun c => if c = ' ' then '-' else c) ++ " " ++ f.version

/-- Meets an option, to which a value may be attached. -/
def meet (f : Form) (o : OptionRule) (attached : Option (List Char)) (p : Progress) :
    Except Refusal Progress :=
  match o.purpose with
  | .help => .error (.help f.usage)
  | .version => .error (.version f.versionLine)
  | .flag | .count => .ok (p.settle.met o.long none)
  | .value =>
    match attached with
    | some value => .ok (p.settle.met o.long (some (String.ofList (value.dropWhile (· == '=')))))
    | none => .ok { p.settle with awaiting := some o.long }

/-- Reads a long option without its dashes. -/
def readLong (f : Form) (p : Progress) (word : List Char) : Except Refusal Progress :=
  let name := word.takeWhile (· != '=')
  let attached :=
    match word.drop name.length with
    | [] => none
    | _ :: value => some value
  match f.rules.find? (·.long == String.ofList name) with
  | some o => f.meet o attached p
  | none => .error (.mistaken (.unknownArgument ("--" ++ String.ofList name)))

/-- Reads a cluster of short options without its dash. What follows an option with a value is that
value. -/
def readShorts (f : Form) : Progress → List Char → Except Refusal Progress
  | p, [] => .ok p
  | p, c :: rest =>
    match f.rules.find? (·.short == some c) with
    | none => .error (.mistaken (.unknownArgument (String.ofList ['-', c])))
    | some o =>
      if o.purpose = .value then f.meet o (if rest.isEmpty then none else some rest) p
      else do f.readShorts (← f.meet o none p) rest

/-- Reads an operand. -/
def readOperand (f : Form) (p : Progress) (word : String) : Except Refusal Progress :=
  if p.found.operands.length < f.operands then
    .ok { p with found := { p.found with operands := p.found.operands ++ [word] } }
  else .error (.mistaken (.unknownArgument word))

/-- Reads words up to the end, or up to a command. Two dashes alone make operands of all words behind
them; one dash alone is no option. -/
def readWords (f : Form) : Progress → List String → Except Refusal (Matches × List String)
  | p, [] => .ok (p.settle.found, [])
  | p, word :: rest => do
    if p.onlyOperands then f.readWords (← f.readOperand p word) rest
    else
      match word.toList with
      | ['-', '-'] => f.readWords { p.settle with onlyOperands := true } rest
      | '-' :: '-' :: name => f.readWords (← f.readLong p (name.dropWhile (· == '-'))) rest
      | '-' :: c :: more => f.readWords (← f.readShorts p (c :: more)) rest
      | _ =>
        match p.awaiting with
        | some name => f.readWords { p.met name (some word) with awaiting := none } rest
        | none =>
          if f.commands.contains word then return (p.found, word :: rest)
          else f.readWords (← f.readOperand p word) rest

/-- Reads a command line: what was found, and from the command on what is left. -/
def read (f : Form) (words : List String) : Except Refusal (Matches × List String) :=
  f.readWords {} words

end Form

namespace Matches

/-- How often an option stands. -/
def count (m : Matches) (name : String) : Nat := m.options.countP (·.1 == name)

/-- Whether an option stands that may stand once. -/
def flag (m : Matches) (name : String) : Except Mistake Bool :=
  match m.count name with
  | 0 => .ok false
  | 1 => .ok true
  | _ => .error (.repeated name)

/-- The value of an option that may stand once, if it stands. -/
def value? (m : Matches) (name : String) : Except Mistake (Option String) :=
  match m.options.filter (·.1 == name) with
  | [] => .ok none
  | [(_, some v)] => .ok (some v)
  | [(_, none)] => .error (.missingValue name)
  | _ => .error (.repeated name)

/-- The value of an option that may stand once, or its default. -/
def value (m : Matches) (name default : String) : Except Mistake String :=
  match m.options.filter (·.1 == name) with
  | [] => .ok default
  | [(_, v)] => .ok (v.getD default)
  | _ => .error (.repeated name)

end Matches

end WatchedStore.CommandLine
