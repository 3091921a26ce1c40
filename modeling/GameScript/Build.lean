import GameScript.Assembly

/-! From the text of a document to the files of a build: the compiled unit and the packed bitmaps. -/

namespace GameScript

/-- Why a document cannot be built. -/
inductive BuildError where
  | load (error : LoadError)
  | compile (error : CompileError)
deriving Repr

/-- The message of an error, with the stage in which it arose. -/
def BuildError.message : BuildError → String
  | .load error => s!"Parsing input JSON: {error.message}"
  | .compile error => s!"Compiling scripts to Lua: {error.message}"

/-- The files of a build. -/
structure Build where
  unit : String
  /-- The bytes of the distinct bitmaps. -/
  bitmaps : List UInt8
deriving DecidableEq, Repr

namespace Build

def unitFile : String := "main.lua"

def bitmapFile : String := "frames.bin"

def ofProduct (p : Product) : Build := ⟨p.text, Bitmap.packAll p.bitmaps⟩

def ofText (options : Options) (text : String) : Except BuildError Build :=
  match Game.load text with
  | .error e => .error (.load e)
  | .ok g =>
      match g.compile options with
      | .error e => .error (.compile e)
      | .ok p => .ok (ofProduct p)

end Build
end GameScript
