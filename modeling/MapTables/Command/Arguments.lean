import MapTables.Command.Field
import MapTables.Decimal.Integer

/-!
# Arguments

The command line names a subcommand and its flags. A flag's value stands behind an equals
sign or in the next argument, which then does not start with a dash. No flag is given
twice.
-/

namespace MapTables.Command

inductive ArgumentFault where
  /-- There are no arguments, so help is shown. -/
  | noArguments
  | helpAsked
  | versionAsked
  | unknownSubcommand
  | unknownArgument
  /-- A value is missing, or none of those there are. -/
  | badValue
  | badNumber
  | repeated
  /-- A flag without a value was given one. -/
  | needlessValue
deriving DecidableEq, Repr

def ArgumentFault.message : ArgumentFault → String
  | .noArguments | .helpAsked =>
    "usage: osmload ingest " ++
      " ".intercalate (Field.all.map fun f => s!"[--{f.flag} {f.placeholder}]")
  | .versionAsked => "osmload 0.1.0"
  | .unknownSubcommand => "there is no such subcommand"
  | .unknownArgument => "there is no such argument"
  | .badValue => "a flag has no value, or one that it does not take"
  | .badNumber => "a number of rows is a sequence of digits"
  | .repeated => "a flag is given twice"
  | .needlessValue => "a flag that takes no value is given one"

namespace Arguments

/-- A flag whose value has not been looked at, and the value if there is one. -/
structure Pending where
  field : Field
  value : Option String := none

def numberBits : Nat := 64

def read (f : Field) (text : String) : Except ArgumentFault Given :=
  match f with
  | .batchSize =>
    match Decimal.word? numberBits text with
    | some n => .ok (.number n)
    | none => .error .badNumber
  | .dropExisting =>
    if text = "true" then .ok (.truth true)
    else if text = "false" then .ok (.truth false)
    else .error .badValue
  | _ => .ok (.text text)

/-- The text of a flag that was given none. -/
def missingText : Field → Except ArgumentFault String
  | .dropExisting => .ok "true"
  | _ => .error .badValue

def settle (given : Layer) (p : Pending) : Except ArgumentFault Layer := do
  let text ← match p.value with
    | some text => pure text
    | none => missingText p.field
  if (given.lookup p.field).isSome then .error .repeated
  return given ++ [(p.field, ← read p.field text)]

def settlePending (given : Layer) : Option Pending → Except ArgumentFault Layer
  | some p => settle given p
  | none => .ok given

inductive Shape where
  /-- From here on there are no flags. -/
  | dashes
  | long (name : String) (value : Option String)
  | short (first : Char)
  | plain

def splitLong (cs : List Char) : Shape :=
  match cs.dropWhile (· != '=') with
  | [] => .long (String.ofList cs) none
  | _ :: value => .long (String.ofList (cs.takeWhile (· != '='))) (some (String.ofList value))

def shape (arg : String) : Shape :=
  match arg.toList with
  | ['-', '-'] => .dashes
  | '-' :: '-' :: cs => splitLong cs
  | '-' :: c :: _ => .short c
  | _ => .plain

def flags (given : Layer) (pending : Option Pending) : List String → Except ArgumentFault Layer
  | [] => settlePending given pending
  | arg :: rest =>
    match shape arg with
    | .dashes => if rest.isEmpty then settlePending given pending else .error .unknownArgument
    | .short c => do
      if c ≠ 'h' then .error .unknownArgument
      -- Before help is shown, the flag in front must have a value that it takes.
      let _ ← settlePending given pending
      .error .helpAsked
    | .long "help" (some _) => .error .needlessValue
    | .long "help" none => do
      let _ ← settlePending given pending
      .error .helpAsked
    | .long name value =>
      match Field.ofFlag? name, value with
      | none, _ => .error .unknownArgument
      | some f, some text => do
        flags (← settle (← settlePending given pending) ⟨f, some text⟩) none rest
      | some f, none => do
        flags (← settlePending given pending) (some ⟨f, none⟩) rest
    | .plain =>
      match pending with
      | some ⟨f, none⟩ => flags given (some ⟨f, some arg⟩) rest
      | _ => .error .unknownArgument

def subcommand : String := "ingest"

def helpCommand : String := "help"

def help : List String → ArgumentFault
  | [] => .helpAsked
  | [name] => if name = subcommand ∨ name = helpCommand then .helpAsked else .unknownSubcommand
  | _ => .unknownSubcommand

/-- What follows dashes where a subcommand should stand. -/
def afterDashes : List String → ArgumentFault
  | [] => .noArguments
  | name :: _ =>
    if name = subcommand ∨ name = helpCommand then .unknownArgument else .unknownSubcommand

def ofList : List String → Except ArgumentFault Layer
  | [] => .error .noArguments
  | arg :: rest =>
    match shape arg with
    | .dashes => .error (afterDashes rest)
    | .short 'h' | .long "help" none => .error .helpAsked
    | .short 'V' | .long "version" none => .error .versionAsked
    | .long "help" (some _) | .long "version" (some _) => .error .needlessValue
    | .short _ | .long .. => .error .unknownArgument
    | .plain =>
      if arg = subcommand then flags [] none rest
      else if arg = helpCommand then .error (help rest)
      else .error .unknownSubcommand

end Arguments
end MapTables.Command
