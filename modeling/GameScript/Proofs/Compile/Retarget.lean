import GameScript.Proofs.Compile.Levels

/-! The object that calls in a tell dispatch on. What the occupant of a place, the room, the player or the
game is told is a function whose calls dispatch on the actor of the tell. What is told to anything that is
found by name is handed over as a callback, and there calls dispatch on the object of the function around
the tell. -/

namespace GameScript

open Compile Outcome

/-! ### Parts of a text -/

/-- A text stands in another one. -/
def Within (part whole : String) : Prop := ∃ before after, whole = before ++ part ++ after

namespace Within

variable {part whole : String}

theorem refl (part : String) : Within part part := ⟨"", "", by simp⟩

theorem append_left (h : Within part whole) (t : String) : Within part (t ++ whole) := by
  obtain ⟨before, after, rfl⟩ := h
  exact ⟨t ++ before, after, by simp only [String.append_assoc]⟩

theorem append_right (h : Within part whole) (t : String) : Within part (whole ++ t) := by
  obtain ⟨before, after, rfl⟩ := h
  exact ⟨before, after ++ t, by simp only [String.append_assoc]⟩

theorem intercalate {t separator : String} {ts : List String} (h : Within part t) (ht : t ∈ ts) :
    Within part (separator.intercalate ts) := by
  induction ts with
  | nil => cases ht
  | cons u us ih =>
    cases us with
    | nil =>
      obtain rfl : t = u := List.mem_singleton.mp ht
      exact h
    | cons v us =>
      rw [String.intercalate_cons_cons]
      rcases List.mem_cons.mp ht with rfl | ht
      · exact (h.append_right _).append_right _
      · exact (ih ht).append_left _

end Within

/-! ### Calls of the tell operation -/

namespace Call

/-- The block that is handed over last stands in its slot. -/
theorem within_text_tell {part f : String} (h : Within part f) (arg : Argument) :
    Within part (text .effect "tell" [arg, .callback f]) := by
  have slot : slotText [arg, .callback f] .block = f := by
    simp [slotText, Argument.fills]
  have spelled : text .effect "tell" [arg, .callback f] = "__pulp.__fn_tell" ++ "(" ++
      ", ".intercalate (assembled "tell" [arg, .callback f]) ++ ")" := rfl
  have stands : f ∈ assembled "tell" [arg, .callback f] := by
    refine List.mem_append_left _ (List.mem_map.mpr ⟨.block, ?_, slot⟩)
    decide
  rw [spelled]
  exact ((h.intercalate stands).append_left _).append_right _

end Call

namespace TellTarget

/-- Whether what is told to is found by name when the script runs. -/
def isNamed : TellTarget → Bool
  | named _ => true
  | place _ _ | room | player | game => false

/-- Where the body of a tell is compiled. -/
def bodyPlace (t : TellTarget) : Place := if t.isNamed then .callback else .told

end TellTarget

namespace Compile

variable {bodies : BodyCompiler} {s : Scope}

theorem arguments_cons_eq_ok {e : Expr} {es : List Expr} {args : List Argument}
    (h : (arguments bodies s (e :: es)).result = .ok args) :
    ∃ arg rest, args = arg :: rest ∧ (arguments bodies s es).result = .ok rest := by
  cases e with
  | pair x y =>
    obtain ⟨x, -, h⟩ := result_bind_eq_ok_iff.mp h
    obtain ⟨y, -, h⟩ := result_bind_eq_ok_iff.mp h
    obtain ⟨rest, hrest, h⟩ := result_bind_eq_ok_iff.mp h
    cases h
    exact ⟨_, rest, rfl, hrest⟩
  | _ =>
    obtain ⟨t, -, h⟩ := result_bind_eq_ok_iff.mp h
    obtain ⟨rest, hrest, h⟩ := result_bind_eq_ok_iff.mp h
    cases h
    exact ⟨_, rest, rfl, hrest⟩

/-- A block that is handed over: its body, and where that stands. -/
theorem callback_eq_ok {index : Nat} {t : String} (h : (callback bodies s index).result = .ok t) :
    ∃ body, (bodies (s.indented 2) true index).result = .ok body ∧ Within body t := by
  obtain ⟨body, hbody, h⟩ := result_bind_eq_ok_iff.mp h
  cases h
  exact ⟨body, hbody, (((Within.refl body).append_left _).append_right _).append_right _⟩

theorem told_eq_ok {label actor guard t : String} {index : Nat}
    (h : (told bodies s label actor guard index).result = .ok t) :
    ∃ body, (bodies (Place.told.scope s) true index).result = .ok body ∧ Within body t := by
  obtain ⟨body, hbody, h⟩ := result_bind_eq_ok_iff.mp h
  cases h
  refine ⟨body, hbody, Within.append_left ?_ _⟩
  exact ((((Within.refl body).append_right _).append_right _).append_right _).append_right _

/-- A tell compiles its body as a function, and the function stands in its text. -/
theorem tell_eq_ok {target : TellTarget} {index : Nat} {t : String}
    (h : (tell bodies s target index).result = .ok t) :
    ∃ body, (bodies (target.bodyPlace.scope s) true index).result = .ok body ∧ Within body t := by
  cases target with
  | place x y =>
    obtain ⟨y, -, h⟩ := result_bind_eq_ok_iff.mp h
    obtain ⟨x, -, h⟩ := result_bind_eq_ok_iff.mp h
    exact told_eq_ok h
  | named name =>
    -- the callback comes second, whatever the name is compiled to
    obtain ⟨args, hargs, h⟩ := result_bind_eq_ok_iff.mp h
    cases h
    obtain ⟨arg, rest, rfl, hrest⟩ := arguments_cons_eq_ok hargs
    obtain ⟨f, hf, h⟩ := result_bind_eq_ok_iff.mp hrest
    cases h
    obtain ⟨body, hbody, within⟩ := callback_eq_ok hf
    exact ⟨body, hbody, Call.within_text_tell within arg⟩
  | _ => exact told_eq_ok h

/-! ### The object of calls -/

/-- The declarations of a function bind the object that calls dispatch on, and bind it to the target. -/
def Binds (ds : List String) (target : String) : Prop :=
  ∀ d, d ∈ ds ∧ declaredName d = "__evobj" ↔ d = objectDeclaration target

theorem Binds.iff_eq {ds : List String} {target target' : String} (h : Binds ds target) :
    Binds ds target' ↔ target = target' := by
  constructor
  · intro h'
    have same : objectDeclaration target = objectDeclaration target' := (h' _).mp ((h _).mpr rfl)
    exact (String.append_right_inj _).mp same
  · rintro rfl
    exact h

/-- A function with a call directly in it binds the object to the target of its scope. -/
theorem Heads.binds {c : Context} {cs : Block} {t : String} {ds : List String} (h : Heads c cs t ds)
    (hcall : Direct c.scope.blocks cs .call) : Binds ds c.scope.target := by
  have asked : Action.call.declaration? c.scope.target = some (objectDeclaration c.scope.target) := rfl
  intro d
  constructor
  · rintro ⟨hd, hname⟩
    obtain ⟨a, -, ha⟩ := (h.complete d).mp hd
    exact Action.declaredName_inj ha asked (hname.trans (declaredName_objectDeclaration _).symm)
  · rintro rfl
    exact ⟨(h.complete _).mpr ⟨.call, hcall, asked⟩, declaredName_objectDeclaration _⟩

theorem target_bodyPlace (t : TellTarget) :
    (t.bodyPlace.scope s).target = if t.isNamed then s.target else toldTarget := by
  cases t <;> rfl

/-- The body of a tell is a function of its own in the text of the tell. Where a call stands directly in it,
the function binds the object that calls dispatch on: to the actor that is told, unless that is found by
name and calls around the tell dispatch on another object, to which the function then binds it. -/
theorem tell_dispatch {target : TellTarget} {index : Nat} {text : String}
    (h : (command s (.tell target index)).result = .ok text) :
    ∃ cs t ds, s.blocks[index]? = some cs ∧ Within t text ∧
      Heads ⟨target.bodyPlace.scope s, .empty⟩ cs t ds ∧
      (Direct s.blocks cs .call → Binds ds (if target.isNamed then s.target else toldTarget) ∧
        (Binds ds toldTarget ↔ target.isNamed = false ∨ s.target = toldTarget)) := by
  obtain ⟨line?, hline, h⟩ := result_bind_eq_ok_iff.mp h
  obtain ⟨line, htell, hsome⟩ := result_bind_eq_ok_iff.mp hline
  cases hsome
  cases h
  obtain ⟨t, hbody, within⟩ := tell_eq_ok htell
  obtain ⟨cs, hcs, heq⟩ := body_eq_block hbody
  rw [heq] at hbody
  rw [Place.blocks_scope] at hcs
  have heads := heads_of_block (c := ⟨target.bodyPlace.scope s, .empty⟩) hbody
  refine ⟨cs, t, _, hcs, (within.append_left _).append_right _, heads, fun hcall => ?_⟩
  have binds := heads.binds ((Place.blocks_scope s _).symm ▸ hcall)
  rw [target_bodyPlace] at binds
  refine ⟨binds, binds.iff_eq.trans ?_⟩
  cases target.isNamed <;> simp

/-- The player is told a loop with a call in it. -/
theorem tell_dispatch_player :
    let s : Scope := { Scope.initial .standard with
      targets := ["__pulp:getScript(\"game\")"]
      blocks := [[.loop ⟨.lt, .string "n", .number (.integer 3)⟩ 1], [.call (.string "open")]] }
    let text := "  do --tell __pulp.player to\n    local __actor = __pulp.player\n    if __actor then\n" ++
      "      local __evobj = __actor.script or __pulp.EMPTY\n      while n < 3 do\n" ++
      "        ;(__evobj.open or __evobj.any)(__evobj, __actor, event, \"open\") -- call \"open\"\n" ++
      "      end\n    end\n  end\n"
    (command s (.tell .player 0)).result = .ok text ∧ ∃ cs t ds, s.blocks[0]? = some cs ∧
      Within t text ∧ Heads ⟨TellTarget.player.bodyPlace.scope s, .empty⟩ cs t ds ∧
      Direct s.blocks cs .call ∧ Binds ds toldTarget := by
  intro s text
  have compiles : (command s (.tell .player 0)).result = .ok text := by decide +kernel
  obtain ⟨cs, t, ds, hcs, within, heads, dispatch⟩ := tell_dispatch compiles
  have hcall : Direct s.blocks cs .call := by
    obtain rfl := Option.some.inj hcs
    exact .branch List.mem_cons_self (i := 1) (List.mem_cons_of_mem _ List.mem_cons_self) rfl
      (.here List.mem_cons_self List.mem_cons_self)
  exact ⟨compiles, cs, t, ds, hcs, within, heads, hcall, (dispatch hcall).2.mpr (.inl rfl)⟩

/-- A tile that is told by its name: the call in what it is told dispatches on the script around the tell. -/
theorem tell_dispatch_lamp :
    let s : Scope := { Scope.initial .standard with
      targets := ["__pulp:getScript(\"game\")"]
      tiles := [("Lamp", 2)]
      blocks := [[.call (.string "open")]] }
    let lamp : TellTarget := .named (.string "Lamp")
    let cs : Block := [.call (.string "open")]
    let object := "local __evobj = __pulp:getScript(\"game\")"
    let t := "      " ++ object ++ "\n" ++
      "      ;(__evobj.open or __evobj.any)(__evobj, __actor, event, \"open\") -- call \"open\"\n"
    (command s (.tell lamp 0)).result = .ok ("  __pulp.__fn_tell(event, __evname, " ++
      "function(__self, __actor, event, __evname)\n" ++ t ++ "    end, --[[(Lamp)]] 2)\n") ∧
    Heads ⟨lamp.bodyPlace.scope s, .empty⟩ cs t [object] ∧ Direct s.blocks cs .call ∧
      ¬ Binds [object] toldTarget := by
  intro s lamp cs object t
  have compiles : (block (lamp.bodyPlace.scope s) true cs).result = .ok t := by decide +kernel
  have scheduled : declarations (commandsWith body (lamp.bodyPlace.scope s) cs).log = [object] := by
    decide +kernel
  refine ⟨by decide +kernel, ?_, .here List.mem_cons_self List.mem_cons_self, fun binds => ?_⟩
  · rw [← scheduled]
    exact heads_of_block (c := ⟨lamp.bodyPlace.scope s, .empty⟩) compiles
  · have bound : object = objectDeclaration toldTarget :=
      (binds object).mp ⟨List.mem_cons_self, by decide +kernel⟩
    exact absurd bound (by decide +kernel)

end Compile
end GameScript
