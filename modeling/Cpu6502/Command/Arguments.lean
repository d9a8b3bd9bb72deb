import Cpu6502.Command.Parser

/-!
# Arguments

A parser for lists of arguments.  Letters may stand in a cluster behind one
dash, and the first that takes a value takes the rest of the cluster for it.  A
name stands behind two dashes, with its value behind an equals sign.  A value
that is missing is the next argument, whatever that looks like.  Two dashes
alone end the switches, and arguments without a dash, or with nothing behind it,
are free.
-/

namespace Cpu6502

inductive ArgumentFault where
  | unrecognized (name : String)
  | missingValue (name : String)
  | unexpectedValue (name : String)
  | repeated (switch : Switch)
  deriving DecidableEq, Repr

def ArgumentFault.message : ArgumentFault → String
  | .unrecognized name => "Unrecognized option: '" ++ name ++ "'"
  | .missingValue name => "Argument to option '" ++ name ++ "' missing"
  | .unexpectedValue name => "Option '" ++ name ++ "' does not take an argument"
  | .repeated switch => "Option '" ++ switch.name ++ "' given more than once"

/-- A switch as it was given, with its value if it takes one. -/
structure Setting where
  switch : Switch
  value : String
  deriving DecidableEq, Repr

structure Arguments where
  settings : List Setting
  free : List String
  deriving DecidableEq, Repr

namespace Arguments

/-- The switches of one argument, the last of which may wait for its value. -/
structure Group where
  settings : List Setting
  waiting : Option (Switch × String)
  deriving DecidableEq, Repr

def readName (text : List Char) : Except ArgumentFault Group :=
  let name := text.takeWhile (· != '=')
  let value := text.dropWhile (· != '=')
  match Switch.ofName? name with
  | none => .error (.unrecognized (String.ofList name))
  | some switch =>
      match switch.takesValue, value with
      | false, [] => .ok ⟨[⟨switch, ""⟩], none⟩
      | false, _ :: _ => .error (.unexpectedValue (String.ofList name))
      | true, [] => .ok ⟨[], some (switch, String.ofList name)⟩
      | true, _ :: value => .ok ⟨[⟨switch, String.ofList value⟩], none⟩

def readCluster : List Char → Except ArgumentFault Group
  | [] => .ok ⟨[], none⟩
  | c :: cs =>
      match Switch.ofLetter? c with
      | none => .error (.unrecognized c.toString)
      | some switch =>
          match switch.takesValue, cs with
          | true, [] => .ok ⟨[], some (switch, c.toString)⟩
          | true, _ :: _ => .ok ⟨[⟨switch, String.ofList cs⟩], none⟩
          | false, _ =>
              (readCluster cs).map fun g =>
                { g with settings := ⟨switch, ""⟩ :: g.settings }

inductive Kind where
  | free
  | endOfSwitches
  | group (text : Except ArgumentFault Group)

def kind (argument : String) : Kind :=
  match argument.toList with
  | ['-', '-'] => .endOfSwitches
  | '-' :: '-' :: name => .group (readName name)
  | '-' :: c :: cs => .group (readCluster (c :: cs))
  | _ => .free

def scan : List String → Except ArgumentFault Arguments
  | [] => .ok ⟨[], []⟩
  | argument :: rest =>
      match kind argument with
      | .free => (scan rest).map fun a => { a with free := argument :: a.free }
      | .endOfSwitches => .ok ⟨[], rest⟩
      | .group (.error fault) => .error fault
      | .group (.ok ⟨settings, none⟩) =>
          (scan rest).map fun a => { a with settings := settings ++ a.settings }
      | .group (.ok ⟨settings, some (switch, name)⟩) =>
          match rest with
          | [] => .error (.missingValue name)
          | value :: rest =>
              (scan rest).map fun a =>
                { a with settings := settings ++ ⟨switch, value⟩ :: a.settings }

def count (a : Arguments) (switch : Switch) : Nat :=
  a.settings.countP (·.switch == switch)

def has (a : Arguments) (switch : Switch) : Bool :=
  a.settings.any (·.switch == switch)

def value? (a : Arguments) (switch : Switch) : Option String :=
  (a.settings.find? (·.switch == switch)).map (·.value)

/-- A switch given twice is found only when all arguments have been read. -/
def ofList (arguments : List String) : Except ArgumentFault Arguments :=
  match scan arguments with
  | .error fault => .error fault
  | .ok a =>
      match Switch.all.find? fun switch => 1 < a.count switch with
      | some switch => .error (.repeated switch)
      | none => .ok a

def toMatches (a : Arguments) : Matches where
  present := a.has
  value? := a.value?
  free := a.free

def parser : Parser where
  parse arguments := ((ofList arguments).mapError (·.message)).map toMatches
  usage := Switch.usage

end Arguments

end Cpu6502
