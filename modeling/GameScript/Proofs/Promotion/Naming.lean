import GameScript.Proofs.Lua.Token
import GameScript.Proofs.Promotion.Storage

/-! How variables are spelled in code. A variable is spelled by its name, with the reserved prefix doubled, or
as an entry of the variable table. Either way the text tells the variable, and a bare name is none that the
code around it in a handler has a use for of its own. -/

namespace GameScript

open Lua

namespace Lua

def indexed (x : String) : String := variableTable ++ "[" ++ quote x ++ "]"

theorem indexed_injective : Function.Injective indexed := by
  intro x y h
  have h := congrArg String.toList h
  simp only [indexed, String.toList_append, List.append_assoc] at h
  have h := List.append_cancel_left (List.append_cancel_left h)
  exact quote_injective (String.toList_injective (List.append_cancel_right h))

theorem not_isName_indexed (x : String) : ¬ IsName (indexed x) := by
  intro h
  refine h.not_mem (c := '[') (by decide) ?_
  simp [indexed]

/-- A variable is spelled as a bare name or as an entry of the variable table. -/
theorem variableRef_cases (v : String) :
    (variableRef v = escapeReserved v ∧ isIdentifier (escapeReserved v) = true) ∨
      variableRef v = indexed (escapeReserved v) := by
  rw [variableRef]
  by_cases h : isIdentifier (escapeReserved v) = true
  · exact .inl ⟨if_pos h, h⟩
  · exact .inr (if_neg h)

theorem variableRef_injective : Function.Injective variableRef := by
  intro v w h
  have bare : ∀ u, isIdentifier u = true → IsName u := fun u hu => (isIdentifier_iff.mp hu).1
  rcases variableRef_cases v with ⟨hv, hbare⟩ | hv <;>
    rcases variableRef_cases w with ⟨hw, hbare'⟩ | hw <;> rw [hv, hw] at h
  · exact escapeReserved_injective h
  · exact absurd (h ▸ bare _ hbare) (not_isName_indexed _)
  · exact absurd (h ▸ bare _ hbare') (not_isName_indexed _)
  · exact escapeReserved_injective (indexed_injective h)

end Lua

/-- The names that handlers and the unit share: what functions of scripts bind, the locals of the preamble, the
tables behind folded mimics and access by name, the table that is handed to the runtime, and the runtime's own
globals. The names inside the functions that give access by name and round numbers (`value`, `name`, `get`,
`set`, `i`, `x`) are not among them, nor is what the preamble alone reads (`math`), nor `_ENV`: a variable can
have each of these names. -/
def Compile.generatedNames : List String :=
  boundNames ++ Promotion.preambleNames ++
    ["___pulp", "__folded", "__var_get", "__var_set", "__var_fallback", "__roomtiles", "__pix8scale",
      "__fillcolours"]

theorem Compile.isOwn_generatedNames : ∀ x ∈ generatedNames, isOwn x = true := by
  intro x hx
  rcases List.mem_append.mp hx with hx | hx
  · rcases List.mem_append.mp hx with hx | hx
    · exact (isOwn_boundNames x hx).1
    · exact Promotion.isOwn_preambleNames x hx
  · revert x
    decide

/-- The spelling of a variable tells the variable, and so does the name under which it is stored. Where the
spelling is a name at all it is that stored name, which is neither a keyword nor one of the names that handlers
and the unit share; elsewhere it is an entry of the variable table. -/
theorem Lua.variableRef_apart :
    Function.Injective variableRef ∧ Function.Injective escapeReserved ∧
    ∀ v, (IsName (variableRef v) ∧ variableRef v = escapeReserved v ∧ variableRef v ∉ keywords ∧
        variableRef v ∉ Compile.generatedNames) ∨
      (¬ IsName (variableRef v) ∧ variableRef v = indexed (escapeReserved v)) := by
  refine ⟨variableRef_injective, fun v w => escapeReserved_injective, fun v => ?_⟩
  rcases variableRef_cases v with ⟨hv, hbare⟩ | hv
  · obtain ⟨hname, hreserved⟩ := isIdentifier_iff.mp hbare
    rw [hv]
    refine .inl ⟨hname, rfl, fun h => hreserved (mem_reservedWords.mpr (.inl h)), fun h => ?_⟩
    exact ne_of_isOwn (Compile.isOwn_generatedNames _ h) (isOwn_escapeReserved hbare) rfl
  · rw [hv]
    exact .inr ⟨not_isName_indexed _, rfl⟩

end GameScript
