import GameScript.Assembly
import GameScript.Proofs.Compile.Body
import GameScript.Proofs.Registry
import Mathlib.Data.List.Nodup
import Mathlib.Data.List.Perm.Subperm

/-! Failure of a compile. While blocks are entered from one another, the indices of the open ones form
a `Path`, and where no block reaches itself a path is shorter than the list of blocks, so the levels of
blocks never run out. The main statement is that a game of decoded scripts compiles, or is refused for
a write to a name that the runtime owns. -/

namespace GameScript

open Compile Lua

/-! ### Paths of blocks -/

/-- The block `i` is entered while the blocks of `visited` are open, which all reach it. -/
structure Path (blocks : List Block) (visited : List Nat) (i : Nat) : Prop where
  inRange : ∀ j ∈ i :: visited, j < blocks.length
  distinct : (i :: visited).Nodup
  reach : ∀ j ∈ visited, Relation.TransGen (Refers blocks) j i

namespace Path

variable {blocks : List Block} {visited : List Nat} {i j : Nat}

theorem start (h : i < blocks.length) : Path blocks [] i :=
  ⟨by simpa using h, List.nodup_singleton i, by simp⟩

theorem step (h : Path blocks visited i) (acyclic : Acyclic blocks) (hij : Refers blocks i j)
    (hj : j < blocks.length) : Path blocks (i :: visited) j := by
  have reach : ∀ k ∈ i :: visited, Relation.TransGen (Refers blocks) k j := by
    intro k hk
    rcases List.mem_cons.mp hk with rfl | hk
    · exact .single hij
    · exact (h.reach k hk).tail hij
  refine ⟨?_, List.nodup_cons.mpr ⟨fun hmem => acyclic j (reach j hmem), h.distinct⟩, reach⟩
  intro k hk
  rcases List.mem_cons.mp hk with rfl | hk
  · exact hj
  · exact h.inRange k hk

/-- A path enters every block at most once. -/
theorem length_lt (h : Path blocks visited i) : visited.length < blocks.length := by
  have hsub : i :: visited ⊆ List.range blocks.length := fun j hj =>
    List.mem_range.mpr (h.inRange j hj)
  have := (h.distinct.subperm hsub).length_le
  rw [List.length_cons, List.length_range] at this
  exact this

end Path

/-! ### Failures of a body -/

def Writes (blocks : List Block) (name : String) : Prop :=
  ∃ cs ∈ blocks, ∃ c ∈ cs, Command.target? c = some name

/-- The error refuses a write to a reserved name, and some command of the blocks is such a write. -/
def Refused (blocks : List Block) (e : CompileError) : Prop :=
  ∃ name, e = .reservedName name ∧ isReservedName name = true ∧ Writes blocks name

/-- The error is for a block that some block refers to, and that there is not. -/
def Missing (blocks : List Block) (e : CompileError) : Prop :=
  ∃ i j, e = .missingBlock j ∧ Refers blocks i j ∧ blocks.length ≤ j

namespace Compile

variable {bodies : BodyCompiler} {s : Scope} {e : CompileError}

theorem Action.run_eq_error {a : Action} (h : (a.run bodies s).result = .error e) :
    (∃ name, a = .write name ∧ isReservedName name = true ∧ e = .reservedName name) ∨
      ∃ place index, a = .enter place index ∧
        (bodies (place.scope s) place.isFunction index).result = .error e := by
  cases a with
  | read name =>
    rw [Action.run, Outcome.effects_result_eq_error, readVariable_eq] at h
    split at h
    · cases h
    · split at h <;> cases h
  | write name =>
    rw [Action.run, Outcome.effects_result_eq_error, writeTarget_eq] at h
    split at h
    · cases h
      exact .inl ⟨name, rfl, ‹_›, rfl⟩
    · split at h <;> cases h
  | enter place index =>
    exact .inr ⟨place, index, rfl, Outcome.effects_result_eq_error.mp h⟩
  | _ => cases h

/-- A block fails where one of its commands writes a reserved name or enters a block that fails. -/
theorem commandsWith_eq_error {cs : Block} (h : (commandsWith bodies s cs).result = .error e) :
    (∃ c ∈ cs, ∃ name, c.target? = some name ∧ isReservedName name = true ∧
        e = .reservedName name) ∨
      ∃ place : Place, ∃ index ∈ Block.refs cs,
        (bodies (place.scope s) place.isFunction index).result = .error e := by
  rw [(commandsWith_performs cs).error_iff] at h
  obtain ⟨a, ha, h⟩ := Action.exists_of_error h
  obtain ⟨c, hc, ha⟩ := List.mem_flatMap.mp ha
  have := c.actions_ofCommand a ha
  rcases Action.run_eq_error h with ⟨name, rfl, hname, he⟩ | ⟨place, index, rfl, he⟩
  · exact .inl ⟨c, hc, name, this, hname, he⟩
  · exact .inr ⟨place, index, List.mem_flatMap.mpr ⟨c, hc, this⟩, he⟩

/-- With a level for every block that is not open yet, a body fails only for a write to a reserved name or
for a block that is missing. -/
theorem failure_of_path {blocks : List Block} (acyclic : Acyclic blocks) :
    (levels : Nat) → {visited : List Nat} → {s : Scope} → {isFunction : Bool} → {i : Nat} →
      s.blocks = blocks → Path blocks visited i → blocks.length ≤ visited.length + levels →
      (bodyWithin levels s isFunction i).result = .error e → Refused blocks e ∨ Missing blocks e
  | 0, _, _, _, _, _, path, hlevels, _ => by
    have := path.length_lt
    omega
  | levels + 1, visited, s, isFunction, i, hs, path, hlevels, h => by
    have hi : i < blocks.length := path.inRange i List.mem_cons_self
    have hcs : s.blocks[i]? = some blocks[i] := by rw [hs, List.getElem?_eq_getElem hi]
    rw [bodyWithin_succ hcs, blockWith_error_iff] at h
    rcases commandsWith_eq_error h with ⟨c, hc, name, htarget, hname, he⟩ | ⟨place, j, hj, h⟩
    · exact .inl ⟨name, he, hname, _, List.getElem_mem hi, c, hc, htarget⟩
    · have hij : Refers blocks i j := ⟨_, List.getElem?_eq_getElem hi, hj⟩
      have hscope : (place.scope s).blocks = blocks := by rw [Place.blocks_scope, hs]
      by_cases hlt : j < blocks.length
      · refine failure_of_path acyclic levels hscope (path.step acyclic hij hlt) ?_ h
        rw [List.length_cons]
        omega
      · have hle := Nat.le_of_not_lt hlt
        rw [bodyWithin_missing (List.getElem?_eq_none (by rwa [hscope]))] at h
        cases h
        exact .inr ⟨i, j, rfl, hij, hle⟩

theorem failure_of_body {s : Scope} (acyclic : Acyclic s.blocks) {isFunction : Bool} {i : Nat}
    (hi : i < s.blocks.length) (h : (body s isFunction i).result = .error e) :
    Refused s.blocks e ∨ Missing s.blocks e :=
  failure_of_path acyclic s.blocks.length rfl (.start hi) (by simp) h

theorem refused_of_body {s : Scope} (acyclic : Acyclic s.blocks)
    (inRange : ∀ i j, Refers s.blocks i j → j < s.blocks.length) {isFunction : Bool} {i : Nat}
    (hi : i < s.blocks.length) (h : (body s isFunction i).result = .error e) :
    Refused s.blocks e := by
  rcases failure_of_body acyclic hi h with h | ⟨i, j, -, hij, hle⟩
  · exact h
  · exact absurd (inRange i j hij) (Nat.not_lt_of_le hle)

end Compile

/-! ### Failures of a game -/

namespace Outcome

variable {α β : Type}

theorem bind_eq_error {x : Outcome α} {f : α → Outcome β} {e : CompileError}
    (h : (x >>= f).result = .error e) :
    x.result = .error e ∨ ∃ a, x.result = .ok a ∧ (f a).result = .error e := by
  obtain ⟨log, e' | a⟩ := x
  · cases h
    exact .inl rfl
  · exact .inr ⟨a, rfl, h⟩

def Succeeds (x : Outcome α) : Prop := ∀ e, x.result ≠ .error e

namespace Succeeds

theorem pure (a : α) : Succeeds (Pure.pure a : Outcome α) := fun _ h => nomatch h

theorem note (d : Diagnostic) : Succeeds (Outcome.note d) := fun _ h => nomatch h

theorem bind {x : Outcome α} {f : α → Outcome β} (hx : Succeeds x) (hf : ∀ a, Succeeds (f a)) :
    Succeeds (x >>= f) := by
  intro e h
  rcases bind_eq_error h with h | ⟨a, -, h⟩
  · exact hx e h
  · exact hf a e h

end Succeeds
end Outcome

namespace Assembly

open Outcome

theorem tileFrames_succeeds (atlas : Atlas) (tile : String) :
    (frames : List Nat) → Succeeds (tileFrames atlas tile frames)
  | [] => .pure _
  | frame :: frames => by
    refine Succeeds.bind ?_ fun _ => (tileFrames_succeeds atlas tile frames).bind fun _ => .pure _
    rw [tileFrame]
    split
    · exact .pure _
    · exact (Succeeds.note _).bind fun _ => .pure _

theorem tileEntries_succeeds (atlas : Atlas) : (tiles : List Tile) →
    Succeeds (tileEntries atlas tiles)
  | [] => .pure _
  | t :: ts => ((tileFrames_succeeds atlas t.name t.frames).bind fun _ => .pure _).bind fun _ =>
      (tileEntries_succeeds atlas ts).bind fun _ => .pure _

theorem tileTable_succeeds (g : Game) (atlas : Atlas) : Succeeds (tileTable g atlas) :=
  (tileEntries_succeeds atlas g.tiles).bind fun _ => .pure _

end Assembly

/-- Every block that a script refers to is one of its own. -/
def Script.InRange (x : Script) : Prop := ∀ i ∈ x.refs, i < x.blocks.length

namespace Compile

variable {r : Registry} {s : Scope} {e : CompileError}

/-- A handler fails for a block that is missing, or as its body does. -/
theorem event_eq_error {script name : String} {index : Nat}
    (h : (event s script name index).result = .error e) :
    (e = .missingBlock index ∧ s.blocks.length ≤ index) ∨
      (body (s.withTarget (scriptObject script)) true index).result = .error e := by
  rcases Outcome.bind_eq_error h with h | ⟨cs, -, h⟩
  · rw [Outcome.ofExcept, Scope.blockAt] at h
    split at h
    · cases h
    · cases h
      exact .inl ⟨rfl, List.getElem?_eq_none_iff.mp ‹_›⟩
  rcases Outcome.bind_eq_error h with h | ⟨t, -, h⟩
  · exact .inr h
  · simp only at h
    split at h <;> cases h

theorem events_eq_error {script : String} : {es : List (String × Nat)} →
    (events s script es).result = .error e →
      ∃ entry ∈ es, (event s script entry.1 entry.2).result = .error e
  | [], h => nomatch h
  | (name, index) :: es, h => by
    rcases Outcome.bind_eq_error h with h | ⟨t, -, h⟩
    · exact ⟨_, List.mem_cons_self, h⟩
    rcases Outcome.bind_eq_error h with h | ⟨ts, -, h⟩
    · obtain ⟨entry, hentry, h⟩ := events_eq_error h
      exact ⟨entry, List.mem_cons_of_mem _ hentry, h⟩
    · cases h

/-- The scope in which the handlers of a script are compiled. -/
def handlerScope (s : Scope) (x : Script) (name : String) : Scope :=
  (s.withBlocks x.blocks).withTarget (scriptObject name)

/-- A script fails for a block that is missing, or as the body of one of its handlers does. -/
theorem script_eq_error {x : Script} (h : (script r s x).result = .error e) : ∃ entry ∈ x.events,
    (e = .missingBlock entry.2 ∧ x.blocks.length ≤ entry.2) ∨
      ∃ name, (body (handlerScope s x name) true entry.2).result = .error e := by
  rw [script] at h
  split at h
  · cases h
  · next name _ =>
    rcases Outcome.bind_eq_error h with h | ⟨t, -, h⟩
    · obtain ⟨entry, hentry, h⟩ := events_eq_error h
      exact ⟨entry, hentry, (event_eq_error h).imp_right fun h => ⟨name, h⟩⟩
    · cases h

theorem refused_of_script {x : Script} (acyclic : Acyclic x.blocks) (inRange : x.InRange)
    (h : (script r s x).result = .error e) : Refused x.blocks e := by
  obtain ⟨entry, hentry, h⟩ := script_eq_error h
  have hindex : entry.2 < x.blocks.length :=
    inRange _ (List.mem_append_left _ (List.mem_map.mpr ⟨entry, hentry, rfl⟩))
  rcases h with ⟨-, hle⟩ | ⟨name, h⟩
  · exact absurd hindex (Nat.not_lt_of_le hle)
  · exact refused_of_body (s := handlerScope s x name) acyclic
      (fun i j hij => inRange j (Script.mem_refs_of_refers hij)) hindex h

theorem scriptList_eq_error : {xs : List Script} → (scriptList r s xs).result = .error e →
    ∃ x ∈ xs, (script r s x).result = .error e
  | [], h => nomatch h
  | x :: xs, h => by
    rcases Outcome.bind_eq_error h with h | ⟨t, -, h⟩
    · exact ⟨x, List.mem_cons_self, h⟩
    rcases Outcome.bind_eq_error h with h | ⟨ts, -, h⟩
    · obtain ⟨y, hy, h⟩ := scriptList_eq_error h
      exact ⟨y, List.mem_cons_of_mem _ hy, h⟩
    · cases h

end Compile

namespace Game

def Writes (g : Game) (name : String) : Prop := ∃ x ∈ g.scripts, GameScript.Writes x.blocks name

theorem refused_of_parts {g : Game} {options : Options} {atlas : Atlas} {e : CompileError}
    (hscripts : ∀ x ∈ g.scripts, x.InRange ∧ Acyclic x.blocks)
    (h : (Assembly.parts options g atlas).result = .error e) :
    ∃ name, e = .reservedName name ∧ isReservedName name = true ∧ g.Writes name := by
  rcases Outcome.bind_eq_error h with h | ⟨tiles, -, h⟩
  · exact absurd h (Assembly.tileTable_succeeds g atlas e)
  rcases Outcome.bind_eq_error h with h | ⟨r, -, h⟩
  · rw [Registry.build_result] at h
    cases h
  rcases Outcome.bind_eq_error h with h | ⟨t, -, h⟩
  · obtain ⟨x, hx, h⟩ := Compile.scriptList_eq_error h
    have hmem := mem_of_mem_firstScripts hx
    obtain ⟨name, he, hname, hwrites⟩ :=
      Compile.refused_of_script (hscripts x hmem).2 (hscripts x hmem).1 h
    exact ⟨name, he, hname, x, hmem, hwrites⟩
  · cases h

/-- Every block that a decoded script refers to, at any depth, is one that it has. A game of decoded
scripts in which no block reaches itself compiles, or fails because one of its commands assigns a name
that the runtime owns. -/
theorem compile_decoded :
    (∀ (r : ScriptRecord) (x : Script), Script.decode r = .ok x →
      ∀ i ∈ x.refs, i < x.blocks.length) ∧
    ∀ (g : Game) (options : Options),
      (∀ x ∈ g.scripts, (∃ r, Script.decode r = .ok x) ∧ Acyclic x.blocks) →
      (∃ p, g.compile options = .ok p) ∨
        ∃ name, g.compile options = .error (.reservedName name) ∧ isReservedName name = true ∧
          g.Writes name := by
  refine ⟨fun r x => Script.refs_lt_of_decode, fun g options hscripts => ?_⟩
  have hscripts' : ∀ x ∈ g.scripts, x.InRange ∧ Acyclic x.blocks := by
    intro x hx
    obtain ⟨⟨r, hr⟩, hacyclic⟩ := hscripts x hx
    exact ⟨Script.refs_lt_of_decode hr, hacyclic⟩
  cases hparts : (Assembly.parts options g (Atlas.build g.frames)).result with
  | ok p => exact .inl ⟨_, by rw [compile, hparts]; rfl⟩
  | error e =>
    obtain ⟨name, rfl, hname, hwrites⟩ := refused_of_parts hscripts' hparts
    exact .inr ⟨name, by rw [compile, hparts]; rfl, hname, hwrites⟩

/-- A script whose handler tells a block that assigns a name of the runtime. -/
theorem compile_decoded_tell :
    let r : ScriptRecord := ⟨0, 0, [
      ("__blocks", .array [
        .array [.array [.string "tell", .array [.string "get", .string "event.room"],
          .array [.string "block", .number (.integer 1)]]],
        .array [.array [.string "set", .string "event.x", .number (.integer 0)]]]),
      ("load", .array [.string "block", .number (.integer 0)])]⟩
    let x : Script := ⟨.global, 0, [("load", 0)],
      [[.tell .room 1], [.assign "event.x" .set (.number (.integer 0))]]⟩
    let g : Game := { (default : Game) with scripts := [x] }
    (Script.decode r = .ok x ∧ Acyclic x.blocks) ∧
      ((∃ p, g.compile .standard = .ok p) ∨ ∃ name, g.compile .standard = .error (.reservedName name) ∧
        isReservedName name = true ∧ g.Writes name) := by
  intro r x g
  have hx : Script.decode r = .ok x ∧ Acyclic x.blocks := by
    refine ⟨rfl, Acyclic.of_lt fun i j hij => ?_⟩
    obtain ⟨cs, hcs, hj⟩ := hij
    match i with
    | 0 =>
      obtain rfl : [Command.tell .room 1] = cs := Option.some.inj hcs
      obtain rfl : j = 1 := by simpa [Block.refs, Command.refs, TellTarget.refs] using hj
      exact Nat.zero_lt_one
    | 1 =>
      obtain rfl : [Command.assign "event.x" .set (.number (.integer 0))] = cs := Option.some.inj hcs
      simp [Block.refs, Command.refs, Expr.refs] at hj
    | _ + 2 => cases hcs
  refine ⟨hx, compile_decoded.2 g .standard fun y hy => ?_⟩
  obtain rfl := List.mem_singleton.mp hy
  exact ⟨⟨r, hx.1⟩, hx.2⟩

end Game
end GameScript
