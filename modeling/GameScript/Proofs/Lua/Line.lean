import GameScript.Proofs.Lua.Comment
import GameScript.Proofs.Lua.Number
import GameScript.Lua.Variable

/-! Lines of a text. What the compiler quotes, spells or puts into a comment stays on its line, whatever characters a
document has in it. -/

namespace GameScript
namespace Lua

/-- The text has no line break. -/
def Unbroken (t : String) : Prop := '\n' ∉ t.toList

instance (t : String) : Decidable (Unbroken t) := inferInstanceAs (Decidable (¬ _))

namespace Unbroken

theorem append {t u : String} (ht : Unbroken t) (hu : Unbroken u) : Unbroken (t ++ u) := by
  rw [Unbroken, String.toList_append, List.mem_append]
  exact not_or.mpr ⟨ht, hu⟩

/-- The literal is given by its characters, so that the check needs not take it apart. -/
theorem fixed {cs : List Char} (h : '\n' ∉ cs) : Unbroken (String.ofList cs) := by
  rwa [Unbroken, String.toList_ofList]

theorem quote (t : String) : Unbroken (quote t) := newline_not_mem_quote t

theorem oneLine (t : String) : Unbroken (oneLine t) := newline_not_mem_oneLine t

theorem number (n : Number) : Unbroken n.text := fun h => absurd (Number.isNumberChar_of_mem_text h) (by decide)

theorem variableRef (name : String) : Unbroken (variableRef name) := by
  unfold Lua.variableRef
  dsimp only
  split_ifs with h
  · exact (isIdentifier_iff.mp h).1.not_mem (by decide)
  · have opener : Unbroken (variableTable ++ "[") := by decide
    exact (opener.append (.quote _)).append (by decide)

theorem field {object : String} (hobject : Unbroken object) (key : String) : Unbroken (field object key) := by
  unfold Lua.field
  split_ifs with h
  · have dot : Unbroken (object ++ ".") := hobject.append (by decide)
    exact dot.append ((isIdentifier_iff.mp h).1.not_mem (by decide))
  · have opener : Unbroken (object ++ "[") := hobject.append (by decide)
    exact (opener.append (.quote key)).append (by decide)

theorem inlineComment (t : String) : Unbroken (inlineComment t) := newline_not_mem_inlineComment t

end Unbroken

/-- Whole lines, each of which starts with the margin. -/
def AreLines (margin t : String) : Prop :=
  ∃ ls : List String, (∀ l ∈ ls, Unbroken l) ∧ t = join (ls.map fun l => margin ++ l ++ "\n")

namespace AreLines

variable {margin t u : String}

theorem nil : AreLines margin "" := ⟨[], (fun _ h => nomatch h), rfl⟩

theorem line (h : Unbroken t) : AreLines margin (margin ++ t ++ "\n") :=
  ⟨[t], List.forall_mem_singleton.mpr h, String.append_empty.symm⟩

theorem append (ht : AreLines margin t) (hu : AreLines margin u) : AreLines margin (t ++ u) := by
  obtain ⟨ls, hls, rfl⟩ := ht
  obtain ⟨ls', hls', rfl⟩ := hu
  exact ⟨ls ++ ls', List.forall_mem_append.mpr ⟨hls, hls'⟩, by rw [List.map_append, join_append]⟩

theorem join {ts : List String} (h : ∀ t ∈ ts, AreLines margin t) : AreLines margin (join ts) := by
  induction ts with
  | nil => exact .nil
  | cons t ts ih =>
    obtain ⟨ht, hts⟩ := List.forall_mem_cons.mp h
    exact ht.append (ih hts)

/-- Lines with a wider margin. -/
theorem narrow {more : String} (hmore : Unbroken more) (h : AreLines (margin ++ more) t) : AreLines margin t := by
  obtain ⟨ls, hls, rfl⟩ := h
  refine ⟨ls.map (more ++ ·), ?_, ?_⟩
  · intro l hl
    obtain ⟨l, hmem, rfl⟩ := List.mem_map.mp hl
    exact hmore.append (hls l hmem)
  · simp only [List.map_map, Function.comp_def, String.append_assoc]

end AreLines
end Lua
end GameScript
