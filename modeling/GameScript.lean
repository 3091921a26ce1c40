import GameScript.Main
import GameScript.Proofs.Compile.Action
import GameScript.Proofs.Compile.Body
import GameScript.Proofs.Compile.Failure
import GameScript.Proofs.Compile.Declarations
import GameScript.Proofs.Compile.Usage
import GameScript.Proofs.Compile.Discipline
import GameScript.Proofs.Compile.Independence
import GameScript.Proofs.Compile.Levels
import GameScript.Proofs.Compile.Places
import GameScript.Proofs.Compile.ReservedWrites
import GameScript.Proofs.Compile.Retarget
import GameScript.Proofs.Document.Events
import GameScript.Proofs.Script.Stored
import GameScript.Proofs.Mimic.Candidates
import GameScript.Proofs.Mimic.Dispatch
import GameScript.Proofs.Mimic.Folding
import GameScript.Proofs.Mimic.Convergence
import GameScript.Proofs.Handlers
import GameScript.Proofs.Tiles
import GameScript.Proofs.Lua.Token
import GameScript.Proofs.Lua.Semantics
import GameScript.Proofs.Lua.Trace
import GameScript.Proofs.Promotion.Access
import GameScript.Proofs.Promotion.Storage
import GameScript.Proofs.Promotion.Naming
import GameScript.Proofs.Promotion.Lines
import GameScript.Proofs.Promotion.Install
import GameScript.Proofs.Promotion.Reflection
import GameScript.Proofs.Promotion.Reset
import GameScript.Proofs.Mimic.Rounds
import GameScript.Proofs.Promotion.Ranking
import GameScript.Proofs.ScriptNames
import GameScript.Proofs.Compile.Draft
import GameScript.Proofs.Compile.Spelling
import GameScript.Proofs.Lua.Comment
import GameScript.Proofs.Compile.Remarks
import GameScript.Proofs.Mimic.Snapshot
import GameScript.Proofs.Mimic.Pure
import GameScript.Proofs.Lua.Literal
import GameScript.Proofs.Lua.Constructor
import GameScript.Proofs.Lua.Lexer
import GameScript.Proofs.Compile.Chains
import GameScript.Proofs.Compile.Compound
import GameScript.Proofs.Compile.Sites
import GameScript.Proofs.Compile.Margins
import GameScript.Proofs.Compile.Invocation
import GameScript.Proofs.Compile.Dotted
import GameScript.Proofs.Bitmap
import GameScript.Proofs.Compile.Slots
import GameScript.Proofs.Compile.Template
import GameScript.Proofs.Compile.Termination
