import GameScript.Assembly
import GameScript.Proofs.Compile.Body

/-! What compiling a game records. The tables and the registry only note what is wrong with the data,
and every event is a function of its own, so no declaration is left outside of the functions. -/

namespace GameScript

open Compile Lua Outcome

namespace Game

def outcome (options : Options) (g : Game) : Outcome Assembly.Parts :=
  Assembly.parts options g (Atlas.build g.frames)

def ledger (options : Options) (g : Game) : Ledger := Ledger.empty.recordAll (g.outcome options).log

theorem compile_eq (options : Options) (g : Game) : g.compile options =
    (g.outcome options).result.map fun p => ⟨Assembly.unitText options g p (g.ledger options),
      (Atlas.build g.frames).unique, (g.ledger options).diagnostics⟩ := rfl

theorem outcome_of_compile {options : Options} {g : Game} {product : Product}
    (h : g.compile options = .ok product) :
    ∃ p, (g.outcome options).result = .ok p := by
  rw [compile_eq] at h
  cases hp : (g.outcome options).result with
  | ok p => exact ⟨p, rfl⟩
  | error e =>
    rw [hp] at h
    cases h

end Game

/-- The scope of the scripts of a game has the game's tiles by name, the last one first. -/
theorem Assembly.tileScope_eq (options : Options) (g : Game) : Assembly.tileScope options g =
    { Scope.initial options with tiles := (g.tiles.map fun t => (t.name, t.id)).reverse } := by
  have fold : ∀ (tiles : List Tile) (s : Scope), tiles.foldl (fun s t => s.withTile t.name t.id) s =
      { s with tiles := (tiles.map fun t => (t.name, t.id)).reverse ++ s.tiles } := by
    intro tiles
    induction tiles with
    | nil => exact fun _ => rfl
    | cons t tiles ih =>
      intro s
      rw [List.foldl_cons, ih, List.map_cons, List.reverse_cons, List.append_assoc]
      rfl
  rw [Assembly.tileScope, fold]
  exact congrArg (fun tiles => { Scope.initial options with tiles }) (List.append_nil _)

/-- A note about the data of a game. -/
def Entry.OfData : Entry → Prop
  | .note (.unknownFrame _ _) | .note (.duplicateScript _ _) | .note (.unknownScript _ _) => True
  | .note _ | .use _ | .declare _ | .candidate _ => False

/-- The entries that compiling a game may record. -/
def Entry.OfUnit : Entry → Prop
  | .use name => isDotted name = false
  | .declare _ | .note (.strayAlias _) | .note (.remark _) => False
  | .note _ | .candidate _ => True

theorem Entry.OfData.ofUnit : {e : Entry} → e.OfData → e.OfUnit
  | .note (.unknownFrame _ _), _ | .note (.duplicateScript _ _), _
  | .note (.unknownScript _ _), _ => trivial

theorem Entry.OfBody.ofUnit : {e : Entry} → e.OfBody → e.declaration? = none → e.OfUnit
  | .use _, h, _ => h
  | .note (.unknownCommand _), _, _ | .note (.unknownExpression _), _, _ => trivial

namespace Outcome.Records

variable {α : Type} {P : Entry → Prop}

theorem ofExcept (x : Except CompileError α) : Records P (Outcome.ofExcept x) :=
  fun _ h => nomatch h

theorem note {d : Diagnostic} (h : P (.note d)) : Records P (Outcome.note d) := .entry h

end Outcome.Records

namespace Assembly

theorem tileFrame_records (atlas : Atlas) (tile : String) (frame : Nat) :
    Records Entry.OfData (tileFrame atlas tile frame) := by
  rw [tileFrame]
  split
  · exact .pure _
  · exact (Records.note trivial).bind fun _ => .pure _

theorem tileFrames_records (atlas : Atlas) (tile : String) : (frames : List Nat) →
    Records Entry.OfData (tileFrames atlas tile frames)
  | [] => .pure _
  | frame :: frames => (tileFrame_records atlas tile frame).bind fun _ =>
      (tileFrames_records atlas tile frames).bind fun _ => .pure _

theorem tileEntries_records (atlas : Atlas) : (tiles : List Tile) →
    Records Entry.OfData (tileEntries atlas tiles)
  | [] => .pure _
  | t :: ts => ((tileFrames_records atlas t.name t.frames).bind fun _ => .pure _).bind fun _ =>
      (tileEntries_records atlas ts).bind fun _ => .pure _

theorem tileTable_records (g : Game) (atlas : Atlas) : Records Entry.OfData (tileTable g atlas) :=
  (tileEntries_records atlas g.tiles).bind fun _ => .pure _

end Assembly

namespace Registry

theorem scriptName_records (g : Game) (key : ScriptKey) :
    Records Entry.OfData (g.scriptName key) := by
  rw [Game.scriptName]
  split
  · exact .pure _
  · exact (Records.note trivial).bind fun _ => .pure _

theorem add_records (g : Game) (r : Registry) (s : Script) : Records Entry.OfData (add g r s) := by
  rw [add]
  split
  · exact (Records.note trivial).bind fun _ => .pure _
  · exact (scriptName_records g s.key).bind fun _ => .pure _

theorem addAll_records (g : Game) : (ss : List Script) → (r : Registry) →
    Records Entry.OfData (addAll g r ss)
  | [], _ => .pure _
  | s :: ss, r => (add_records g r s).bind fun r => addAll_records g ss r

theorem build_records (g : Game) : Records Entry.OfData (build g) := addAll_records g g.scripts _

end Registry

namespace Compile

variable {r : Registry} {s : Scope}

/-- A block that is a function of its own records no declaration. -/
theorem body_function_records (index : Nat) : Records Entry.OfUnit (body s true index) := by
  intro e he
  refine Entry.OfBody.ofUnit (bodyWithin_records _ s true index e he) ?_
  cases e with
  | declare d => exact absurd he declare_not_mem_bodyWithin_function
  | _ => rfl

theorem event_records (script name : String) (index : Nat) :
    Records Entry.OfUnit (event s script name index) := by
  refine (Records.ofExcept _).bind fun cs => (body_function_records index).bind fun t => ?_
  simp only
  split
  · exact (Records.entry trivial).bind fun _ => .pure _
  · exact (Records.pure _).bind fun _ => .pure _

theorem events_records (script : String) : (es : List (String × Nat)) →
    Records Entry.OfUnit (events s script es)
  | [] => .pure _
  | (name, index) :: es => (event_records script name index).bind fun _ =>
      (events_records script es).bind fun _ => .pure _

theorem script_records (x : Script) : Records Entry.OfUnit (script r s x) := by
  rw [script]
  split
  · exact .pure _
  · exact (events_records _ _).bind fun _ => .pure _

theorem scriptList_records : (xs : List Script) → Records Entry.OfUnit (scriptList r s xs)
  | [] => .pure _
  | x :: xs => (script_records x).bind fun _ => (scriptList_records xs).bind fun _ => .pure _

end Compile

theorem Game.outcome_records (options : Options) (g : Game) :
    Records Entry.OfUnit (g.outcome options) := by
  have tiles := (Assembly.tileTable_records g (Atlas.build g.frames)).mono fun _ => Entry.OfData.ofUnit
  have registry := (Registry.build_records g).mono fun _ => Entry.OfData.ofUnit
  exact tiles.bind fun _ => registry.bind fun _ => (scriptList_records _).bind fun _ => .pure _

end GameScript
