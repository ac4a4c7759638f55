import Statechart.Text.CharClass

/-!
# Options

The arguments of a command are options and positional arguments in any order. An option has a long
name, perhaps a letter, and perhaps a value, which is attached to it or is the next argument.
Letters may be run together. After two hyphens alone everything is positional.
-/
namespace Statechart

/-- An option that a command knows. -/
structure OptionSpec where
  name : String
  letter : Option Char := none
  /-- Which values the option accepts; none when it has no value. -/
  accepts : Option (String → Bool) := none

/-- What a command knows. -/
structure CommandSpec where
  options : List OptionSpec
  /-- How many positional arguments there may be at most. -/
  limit : Option Nat := none

/-- Why the arguments are not followed. -/
inductive Refusal where
  | misuse
  | helpWanted
  | versionWanted
  deriving DecidableEq

/-- The arguments of a command while they are read. -/
structure Arguments where
  positional : List String := []
  /-- The options that have been given, with their values. -/
  options : List (String × String) := []
  /-- The option that waits for its value. -/
  pending : Option OptionSpec := none
  /-- Whether everything is positional from here on. -/
  escaped : Bool := false

namespace Arguments

def has (name : String) (a : Arguments) : Bool := (a.options.lookup name).isSome

def value? (name : String) (a : Arguments) : Option String := a.options.lookup name

/-- Whether an argument would be read as an option: a hyphen alone is a value. -/
def looksLikeOption (arg : String) : Bool := arg.startsWith "-" && arg ≠ "-"

/-- Notes an option, which may be given only once. -/
def addOption (spec : OptionSpec) (value : String) (a : Arguments) : Except Refusal Arguments :=
  if a.has spec.name then .error .misuse
  else if spec.accepts.all (· value) then
    .ok { a with options := a.options ++ [(spec.name, value)], pending := none }
  else .error .misuse

def addPositional (spec : CommandSpec) (arg : String) (a : Arguments) : Except Refusal Arguments :=
  if spec.limit.all (a.positional.length < ·) then
    .ok { a with positional := a.positional ++ [arg] }
  else .error .misuse

/-- An option whose value has not been seen yet. -/
def await (spec : OptionSpec) (a : Arguments) : Except Refusal Arguments :=
  if a.has spec.name then .error .misuse else .ok { a with pending := some spec }

/-- The name of an option, with what follows an equals sign. -/
def readLong (spec : CommandSpec) (cs : List Char) (a : Arguments) : Except Refusal Arguments :=
  let (name, value) := match Text.splitAtFirst (· == '=') cs with
    | some (name, value) => (String.ofList name, some (String.ofList value))
    | none => (String.ofList cs, none)
  match spec.options.find? (·.name == name), value with
  | some o, some value => if o.accepts.isSome then a.addOption o value else .error .misuse
  | some o, none => if o.accepts.isSome then a.await o else a.addOption o ""
  | none, value => .error (if name = "help" ∧ value = none then .helpWanted else .misuse)

/-- A run of letters. The first with a value takes the others as its value, less an equals
sign. -/
def readLetters (spec : CommandSpec) : List Char → Arguments → Except Refusal Arguments
  | [], a => .ok a
  | c :: cs, a =>
    match spec.options.find? (·.letter == some c) with
    | some o =>
      if o.accepts.isNone then a.addOption o "" >>= readLetters spec cs
      else
        match cs with
        | [] => a.await o
        | '=' :: value => a.addOption o (String.ofList value)
        | value => a.addOption o (String.ofList value)
    | none => .error (if c = 'h' then .helpWanted else .misuse)

/-- Reads one argument. An option's value must not look like an option. -/
def step (spec : CommandSpec) (a : Arguments) (arg : String) : Except Refusal Arguments :=
  if a.escaped then a.addPositional spec arg
  else
    match a.pending with
    | some o => if looksLikeOption arg then .error .misuse else a.addOption o arg
    | none =>
      if arg = "--" then .ok { a with escaped := true }
      else if looksLikeOption arg then
        match arg.toList.drop 1 with
        | '-' :: name => a.readLong spec name
        | letters => a.readLetters spec letters
      else a.addPositional spec arg

/-- Reads all arguments. -/
def read (spec : CommandSpec) (args : List String) : Except Refusal Arguments := do
  let a ← args.foldlM (step spec) {}
  if a.pending.isSome then throw .misuse
  return a

end Arguments

end Statechart
