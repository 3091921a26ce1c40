import GameScript.Proofs.Compile.Usage
import GameScript.Proofs.Promotion.Access
import GameScript.Proofs.Promotion.Naming

/-! The declarations of a unit. A variable is declared by one line, as a local or as an entry of the variable
table. Different variables have different lines, so the declarations of a game have one line for each variable
that its scripts ask for, and they stand before the scripts. -/

namespace GameScript

open Lua

namespace Promotion

/-- The line of a variable that is a local. -/
def localLine (x : String) : String := s!"local {x} = 0"

/-- The line of a variable that is an entry of the variable table. -/
def entryLine (x : String) : String := s!"{variableTable}[{quote x}] = 0"

/-- The line that declares a variable, by its storage. -/
def line (p : Promotion) (v : String) : String :=
  let x := escapeReserved v
  if x ∈ p.locals then localLine x else entryLine x

def lines (p : Promotion) : List String := p.locals.map localLine ++ p.table.map entryLine

theorem localLine_injective : Function.Injective localLine := by
  intro x y h
  have h := congrArg String.toList h
  simp only [localLine, String.toList_append, toString_self, List.append_assoc] at h
  exact String.toList_injective (List.append_cancel_right (List.append_cancel_left h))

theorem entryLine_injective : Function.Injective entryLine := by
  intro x y h
  have h := congrArg String.toList h
  simp only [entryLine, String.toList_append, toString_self, List.append_assoc] at h
  have h := List.append_cancel_right (List.append_cancel_left (List.append_cancel_left h))
  exact quote_injective (String.toList_injective h)

theorem localLine_ne_entryLine (x y : String) : localLine x ≠ entryLine y := by
  intro h
  have head := congrArg (fun l => l.toList.head?) h
  simp [localLine, entryLine, variableTable, toString_self] at head

theorem line_injective (p : Promotion) : Function.Injective p.line := by
  intro v w h
  rw [line, line] at h
  apply escapeReserved_injective
  split_ifs at h
  · exact localLine_injective h
  · exact absurd h (localLine_ne_entryLine _ _)
  · exact absurd h.symm (localLine_ne_entryLine _ _)
  · exact entryLine_injective h

theorem declarations_eq_lines (p : Promotion) :
    p.declarations = join (p.lines.map fun l => l ++ "\n") := by
  rw [declarations, lines, List.map_append, join_append, List.map_map, List.map_map]
  refine congrArg₂ (· ++ ·) (congrArg join ?_) (congrArg join ?_) <;>
    refine List.map_congr_left fun x _ => ?_ <;> apply String.toList_injective <;>
    simp [localLine, entryLine, toString_self]

section

variable {usage : Table String Nat}

theorem lines_perm (h : (Table.keys usage).Nodup) :
    (ofUsage usage).lines.Perm ((Table.keys usage).map (ofUsage usage).line) :=
  map_append_map_perm h localLine entryLine

theorem nodup_lines (h : (Table.keys usage).Nodup) : (ofUsage usage).lines.Nodup :=
  (lines_perm h).nodup_iff.mpr (h.map (line_injective _))

theorem localLine_mem_lines {p : Promotion} {x : String} : localLine x ∈ p.lines ↔ x ∈ p.locals := by
  rw [lines, List.mem_append, List.mem_map_of_injective localLine_injective, or_iff_left]
  intro h
  obtain ⟨y, -, hy⟩ := List.mem_map.mp h
  exact localLine_ne_entryLine x y hy.symm

theorem entryLine_mem_lines {p : Promotion} {x : String} : entryLine x ∈ p.lines ↔ x ∈ p.table := by
  rw [lines, List.mem_append, List.mem_map_of_injective entryLine_injective, or_iff_right]
  intro h
  obtain ⟨y, -, hy⟩ := List.mem_map.mp h
  exact localLine_ne_entryLine y x hy

theorem newline_not_mem_line (v : String) : '\n' ∉ ((ofUsage usage).line v).toList := by
  rw [line]
  split_ifs with hx
  · have name := (isIdentifier_iff.mp (isIdentifier_of_mem_locals hx)).1
    simpa [localLine, toString_self] using name.not_mem (c := '\n') (by decide)
  · simpa [entryLine, variableTable, toString_self] using newline_not_mem_quote (escapeReserved v)

end

/-- Some lines declare some variables: there is one line for each of them, and no name has two. -/
structure Declares (p : Promotion) (vs lines : List String) : Prop where
  each : lines.Perm (vs.map p.line)
  apart : lines.Nodup
  whole : ∀ l ∈ lines, '\n' ∉ l.toList
  /-- No name is declared both as a local and as an entry. -/
  form : ∀ x, localLine x ∈ lines → entryLine x ∉ lines

theorem declares_lines {usage : Table String Nat} (h : (Table.keys usage).Nodup) :
    (ofUsage usage).Declares (Table.keys usage) (ofUsage usage).lines where
  each := lines_perm h
  apart := nodup_lines h
  whole l hl := by
    obtain ⟨v, -, rfl⟩ := List.mem_map.mp ((lines_perm h).mem_iff.mp hl)
    exact newline_not_mem_line v
  form x hlocal hentry :=
    (mem_table.mp (entryLine_mem_lines.mp hentry)).2 (localLine_mem_lines.mp hlocal)

end Promotion

namespace Game

open Assembly

variable {g : Game} {options : Options}

/-- Where a game compiles, its table of variables holds the names without a dot that compiling its scripts asks
for. In the unit the declarations have one line for each of them, and stand between the data tables and the
scripts. -/
theorem variables_declared {product : Product} (h : g.compile options = .ok product) :
    let ledger := g.ledger options
    let promotion := Promotion.ofUsage ledger.usage
    (∀ v, v ∈ Table.keys ledger.usage ↔ isDotted v = false ∧ g.Asks v) ∧
    ∃ p lines, (g.outcome options).result = .ok p ∧
      promotion.Declares (Table.keys ledger.usage) lines ∧
      product.text = preamble g ++ dataTables g p.tiles ++ "\n" ++ join (lines.map fun l => l ++ "\n") ++
        p.scripts ++ foldedSection (Mimic.fold p.registry ledger.candidates options.foldPasses) ++
        promotion.accessors ++ "\n__pulp:load()\n__pulp:start()\n" ++ trailer ledger.diagnostics := by
  intro ledger promotion
  obtain ⟨p, hp⟩ := outcome_of_compile h
  refine ⟨fun v => mem_usage hp, p, promotion.lines, hp,
    Promotion.declares_lines (nodup_usage options g), ?_⟩
  have text : product.text = unitText options g p ledger := by
    rw [compile_eq, hp, Except.map] at h
    rw [← Except.ok.inj h]
  rw [text, ← promotion.declarations_eq_lines]
  rfl

/-- A variable with the compiler's prefix, in the body of a tell. -/
theorem variables_declared_told :
    let x : Script := ⟨.global, 0, [("load", 0)], [[.tell .room 1], [.increment "__evobj"]]⟩
    let g : Game := { (default : Game) with scripts := [x] }
    let ledger := g.ledger .standard
    ∃ product p, g.compile .standard = .ok product ∧ (g.outcome .standard).result = .ok p ∧
      g.Asks "__evobj" ∧ product.text = preamble g ++ dataTables g p.tiles ++ "\n" ++
        "local ____evobj = 0\n" ++ p.scripts ++ foldedSection (Mimic.fold p.registry ledger.candidates 5) ++
        (Promotion.ofUsage ledger.usage).accessors ++ "\n__pulp:load()\n__pulp:start()\n" ++
        trailer ledger.diagnostics := by
  intro x g ledger
  have compiles : (g.compile .standard).toOption.isSome = true := by decide +kernel
  have keys : Table.keys ledger.usage = ["__evobj"] := by decide +kernel
  have form : join ([(Promotion.ofUsage ledger.usage).line "__evobj"].map fun l => l ++ "\n") =
      "local ____evobj = 0\n" := by decide +kernel
  cases h : g.compile .standard with
  | error e =>
    rw [h] at compiles
    cases compiles
  | ok product =>
    obtain ⟨asked, p, lines, hp, declares, text⟩ := variables_declared h
    have each := declares.each
    rw [keys, List.map_singleton, List.perm_singleton] at each
    have used : "__evobj" ∈ Table.keys ledger.usage := by
      rw [keys]
      exact List.mem_singleton.mpr rfl
    refine ⟨product, p, rfl, hp, ((asked _).mp used).2, ?_⟩
    rw [each, form] at text
    exact text

end Game
end GameScript
