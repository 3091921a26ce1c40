import GameScript.Compile.Scope

/-! The command line: a document to read, a directory to write to, and options. Arguments are read from
left to right. A value is checked when the next argument that is not its own is read, so a fault in a
later argument's own form comes before a fault in the value in front of it. -/

namespace GameScript
namespace CommandLine

/-- What the program is asked to do. -/
structure Request where
  input : String
  output : String
  verbose : Bool
  options : Options
deriving DecidableEq, Repr

/-- Why no request can be read from the arguments; asking for help or for the version is one
reason. -/
inductive Refusal where
  | missingArgument
  | unknownArgument
  | invalidValue
  | valueValidation
  | conflict
  | tooManyValues
  | help
  | version
deriving DecidableEq, Repr

/-- A value that has been read but not checked. -/
inductive Pending where
  | position (value : String)
  /-- The number of rounds; at first its value is still to come. -/
  | passes (value : Option String)
deriving DecidableEq, Repr

/-- What has been read from the arguments so far. -/
structure Reading where
  positions : List String
  passes : Option Nat
  spelledOut : Bool
  verbose : Bool
  pending : Option Pending
  /-- Whether all further arguments are positions. -/
  positionsOnly : Bool
deriving DecidableEq, Repr

/-- The number that a text stands for: digits, perhaps behind a plus sign, of at most 64 bits. -/
def number? (text : String) : Option Nat :=
  let ds : List Char := match text.toList with
    | '+' :: ds => ds
    | ds => ds
  let n := ds.foldl (fun n d => n * 10 + (d.toNat - '0'.toNat)) 0
  if ds ≠ [] ∧ ds.all Char.isDigit ∧ n < Nat.pow 2 64 then some n else none

namespace Reading

def start : Reading := ⟨[], none, false, false, none, false⟩

/-- The number of positions, checked or not. -/
def positionCount (r : Reading) : Nat :=
  r.positions.length + match r.pending with
    | some (.position _) => 1
    | _ => 0

/-- Takes the number of rounds, which can be given once. -/
def setPasses (r : Reading) (value : String) : Except Refusal Reading :=
  if r.passes.isSome then .error .conflict
  else match number? value with
    | some n => .ok { r with passes := some n }
    | none => .error .valueValidation

/-- Checks the pending value. -/
def settle (r : Reading) : Except Refusal Reading :=
  let settled := { r with pending := none }
  match r.pending with
  | none => .ok r
  | some (.position value) =>
      if value.isEmpty then .error .invalidValue
      else .ok { settled with positions := r.positions ++ [value] }
  | some (.passes none) => .error .invalidValue
  | some (.passes (some value)) => settled.setPasses value

def setVerbose (r : Reading) : Except Refusal Reading := do
  let r ← r.settle
  if r.verbose then throw .conflict
  return { r with verbose := true }

def setSpelledOut (r : Reading) : Except Refusal Reading := do
  let r ← r.settle
  if r.spelledOut then throw .conflict
  return { r with spelledOut := true }

/-- Ends the reading, once the pending value is checked. -/
def stop (r : Reading) (reason : Refusal) : Except Refusal Reading := do
  let _ ← r.settle
  throw reason

/-- Reads an option by its long name, with the value attached to it. -/
def long (r : Reading) (name : String) (value : Option String) : Except Refusal Reading :=
  let switch (action : Except Refusal Reading) : Except Refusal Reading :=
    if value.isSome then .error .tooManyValues else action
  if name = "fold-passes" then do
    let r ← r.settle
    match value with
    | some value => r.setPasses value
    | none => return { r with pending := some (.passes none) }
  else if name = "no-relative-assign" then switch r.setSpelledOut
  else if name = "verbose" then switch r.setVerbose
  else if name = "help" then switch (r.stop .help)
  else if name = "version" then switch (r.stop .version)
  else .error .unknownArgument

def short (r : Reading) : List Char → Except Refusal Reading
  | [] => .ok r
  | c :: cs => do
      let r ←
        if c = 'v' then r.setVerbose
        else if c = 'h' then r.stop .help
        else if c = 'V' then r.stop .version
        else .error .unknownArgument
      short r cs

/-- Reads a position, of which there are two. -/
def position (r : Reading) (value : String) : Except Refusal Reading :=
  if 2 ≤ r.positionCount then .error .unknownArgument
  else do
    let r ← r.settle
    return { r with pending := some (.position value) }

/-- Reads an argument that is no option: the value that is still to come, or a position. -/
def value (r : Reading) (text : String) : Except Refusal Reading :=
  if r.pending = some (.passes none) then .ok { r with pending := some (.passes (some text)) }
  else r.position text

def argument (r : Reading) (text : String) : Except Refusal Reading :=
  if r.positionsOnly then r.position text
  else match text.toList with
    | ['-', '-'] => .ok { r with positionsOnly := true }
    | '-' :: '-' :: cs =>
        let name := String.ofList (cs.takeWhile (· ≠ '='))
        match cs.dropWhile (· ≠ '=') with
        | [] => r.long name none
        | _ :: attached => r.long name (some (String.ofList attached))
    | '-' :: c :: cs => r.short (c :: cs)
    | _ => r.value text

def finish (r : Reading) : Except Refusal Request := do
  let r ← r.settle
  let options : Options := ⟨r.passes.getD Options.standard.foldPasses, !r.spelledOut⟩
  match r.positions with
  | [] => throw .missingArgument
  | [input] => return ⟨input, "out", r.verbose, options⟩
  | input :: output :: _ => return ⟨input, output, r.verbose, options⟩

end Reading

def parse (arguments : List String) : Except Refusal Request := do
  let r ← arguments.foldlM Reading.argument Reading.start
  r.finish

end CommandLine
end GameScript
