import GameScript.Build
import GameScript.CommandLine

/-! The program: builds the document that the command line names and writes the files of the build into
a directory. -/

namespace GameScript

/-- How the program is called. -/
def usage : String :=
  "usage: gamescript [--fold-passes N] [--no-relative-assign] [-v] INPUT [OUTPUT]"

def CommandLine.Refusal.message : CommandLine.Refusal → String
  | .missingArgument => "the input is missing"
  | .unknownArgument => "unknown argument"
  | .invalidValue => "a value is missing or empty"
  | .valueValidation => "the number of rounds is not a number"
  | .conflict => "an option is given twice"
  | .tooManyValues => "an option takes no value"
  | .help => usage
  | .version => "gamescript 0.1.0"

/-- Builds and writes what a request asks for. -/
def serve (r : CommandLine.Request) : IO UInt32 := do
  let text ← IO.FS.readFile r.input
  match Build.ofText r.options text with
  | .error e =>
      IO.eprintln s!"Error: {e.message}"
      return 1
  | .ok b =>
      IO.FS.createDirAll r.output
      IO.FS.writeFile s!"{r.output}/{Build.unitFile}" b.unit
      IO.FS.writeBinFile s!"{r.output}/{Build.bitmapFile}" (ByteArray.mk b.bitmaps.toArray)
      if r.verbose then IO.eprintln s!"files written to {r.output}"
      return 0

end GameScript

open GameScript in
def main (arguments : List String) : IO UInt32 := do
  match CommandLine.parse arguments with
  | .ok request => serve request
  | .error reason =>
      match reason with
      | .help | .version =>
          IO.println reason.message
          return 0
      | _ =>
          IO.eprintln reason.message
          return 2
