import GameScript.Proofs.Handlers
import GameScript.Proofs.Script.Decoded
import GameScript.Proofs.Tiles
import Mathlib.Data.List.Flatten

/-! Which handlers are folded. A handler is a candidate just when its block is one mimic of a literal name of a
tile, or of a literal number, with nothing but decoration around it. What is recorded of it, the text of the
handler and the table of tiles agree on the tile. -/

namespace GameScript

open Compile Lua

namespace Mimic

/-! ### Blocks -/

/-- A block that is one mimic of a target, with nothing but decoration around it. -/
def Sole (target : Expr) (cs : Block) : Prop :=
  ∃ before after, cs = before ++ .mimic target :: after ∧
    ∀ c ∈ before ++ after, c = .noop ∨ c = .comment ∨ c = .continuedComment

theorem isDecoration_iff {c : Command} :
    c.isDecoration = true ↔ c = .noop ∨ c = .comment ∨ c = .continuedComment := by
  cases c <;> simp [Command.isDecoration]

theorem filter_eq_mimic_iff {cs : Block} {target : Expr} :
    (cs.filter fun c => !c.isDecoration) = [.mimic target] ↔ Sole target cs := by
  rw [List.filter_eq_cons_iff]
  constructor
  · rintro ⟨before, after, rfl, hbefore, -, hafter⟩
    refine ⟨before, after, rfl, fun c hc => isDecoration_iff.mp ?_⟩
    rcases List.mem_append.mp hc with hc | hc
    · simpa using hbefore c hc
    · simpa using List.filter_eq_nil_iff.mp hafter c hc
  · rintro ⟨before, after, rfl, hall⟩
    have all : ∀ c ∈ before ++ after, ¬ (!c.isDecoration) = true := fun c hc => by
      simpa using isDecoration_iff.mpr (hall c hc)
    exact ⟨before, after, rfl, fun c hc => all c (List.mem_append_left _ hc), rfl,
      List.filter_eq_nil_iff.mpr fun c hc => all c (List.mem_append_right _ hc)⟩

theorem pureMimic?_eq_some_iff {s : Scope} {cs : Block} {tile : Int} :
    pureMimic? s cs = some tile ↔ ∃ target, Sole target cs ∧ s.tileId? target = some tile := by
  simp only [← filter_eq_mimic_iff]
  rw [pureMimic?]
  split
  · next target heq =>
    rw [heq]
    constructor
    · exact fun h => ⟨target, rfl, h⟩
    · rintro ⟨target', htarget, h⟩
      cases htarget
      exact h
  · next hne =>
    refine iff_of_false nofun ?_
    rintro ⟨target, heq, -⟩
    exact hne target heq

end Mimic

/-! ### Targets -/

/-- The tile that a literal denotes: a name that of the last tile with the name, and a number of 64 bits the
tile with that id. -/
inductive Game.Denotes (g : Game) : Expr → Int → Prop where
  | name {before after : List Tile} {t : Tile} : g.tiles = before ++ t :: after →
      (∀ u ∈ after, u.name ≠ t.name) → g.Denotes (.string t.name) t.id
  | number {n : Int} : -(Int.pow 2 63) ≤ n → n < Int.pow 2 63 → g.Denotes (.number (.integer n)) n

namespace Game

variable {g : Game} {options : Options}

/-- A literal of a stored script is known as a tile just when it denotes it. -/
theorem tileId?_eq_some_iff {e : Expr} (he : ∀ id name, e ≠ .tile id name) {id : Int} :
    (Assembly.tileScope options g).tileId? e = some id ↔ g.Denotes e id := by
  constructor
  · intro h
    match e, h with
    | .string name, h =>
      obtain ⟨before, after, t, htiles, hafter, rfl, rfl⟩ := lookup_tiles_iff.mp h
      exact .name htiles hafter
    | .number (.integer n), h =>
      change (if -(Int.pow 2 63) ≤ n ∧ n < Int.pow 2 63 then some n else none) = some id at h
      split_ifs at h with hn
      cases h
      exact .number hn.1 hn.2
    | .number (.decimal d), h => cases h
    | .tile id' name, _ => exact absurd rfl (he id' name)
  · rintro (⟨htiles, hafter⟩ | ⟨hlow, hhigh⟩)
    · exact lookup_tiles_iff.mpr ⟨_, _, _, htiles, hafter, rfl, rfl⟩
    · exact if_pos ⟨hlow, hhigh⟩

end Game

namespace Mimic

/-! ### Handlers -/

/-- What a mimic of a known tile looks its handler up in. -/
def tileLookup (reference : String) : String :=
  s!"((__pulp.tiles[{reference}] or __pulp.EMPTY).script or __pulp.EMPTY)"

/-- The lines that run the handler which an object has for the event. -/
def mimicLines (gi lookup : String) : String :=
  s!"{gi}do -- (mimic)\n{gi}  local __mimic_target__ = {lookup}\n" ++
    s!"{gi}  ;(__mimic_target__[__evname] or __mimic_target__.any)" ++
    s!"(__mimic_target__, __actor, event, __evname)\n{gi}end\n"

/-- What a literal says. It is the remark at the tile that the literal denotes. -/
def label : Expr → String
  | .string name => name
  | .number (.integer n) => toString n
  | .tile _ name => name
  | _ => ""

/-- The body of a handler runs the handler that a tile has for the event, and there is nothing but comments
around that. The tile is given by its id, with a remark. -/
def DispatchesOn (tile : Int) (remark body : String) : Prop :=
  ∃ before after : List String,
    (∀ l ∈ before ++ after, l = "  --(comment omitted)\n" ∨ l = "  --(previous-line comment omitted)\n") ∧
    body = join before ++ mimicLines "  " (tileLookup (tileText tile remark)) ++ join after

variable {bodies : BodyCompiler} {s : Scope} {target : Expr} {tile : Int} {cs : Block}

/-- The line of a decoration, if it has one. -/
def decorationLine? (s : Scope) : Command → Option String
  | .comment => some (s.margin ++ "--(comment omitted)" ++ "\n")
  | .continuedComment => some (s.margin ++ "--(previous-line comment omitted)" ++ "\n")
  | _ => none

theorem commandWith_decoration {c : Command} (h : c = .noop ∨ c = .comment ∨ c = .continuedComment) :
    commandWith bodies s c = pure (join (decorationLine? s c).toList) := by
  rcases h with rfl | rfl | rfl
  · rfl
  · exact congrArg pure String.append_empty.symm
  · exact congrArg pure String.append_empty.symm

theorem join_filterMap_cons (f : Command → Option String) (c : Command) (cs : List Command) :
    join ((c :: cs).filterMap f) = join (f c).toList ++ join (cs.filterMap f) := by
  rw [List.filterMap_eq_flatMap_toList, List.flatMap_cons, join_append, ← List.filterMap_eq_flatMap_toList]

theorem commandsWith_decorations : {cs : List Command} →
    (∀ c ∈ cs, c = .noop ∨ c = .comment ∨ c = .continuedComment) →
    commandsWith bodies s cs = pure (join (cs.filterMap (decorationLine? s)))
  | [], _ => rfl
  | c :: cs, h => by
    obtain ⟨hc, h⟩ := List.forall_mem_cons.mp h
    rw [commandsWith, commandsWith_decorations h, commandWith_decoration hc, pure_bind, pure_bind,
      join_filterMap_cons]

/-- A literal that is known as a tile is compiled as that tile. -/
theorem foldTile?_eq (h : s.tileId? target = some tile) :
    s.foldTile? target = some (.tile tile (label target)) := by
  unfold Scope.tileId? at h
  split at h
  · rw [Scope.foldTile?, h]
    rfl
  · next n =>
    cases n with
    | integer n =>
      have hn : n = tile := Option.some.inj (Option.ite_none_right_eq_some.mp h).2
      rw [Scope.foldTile?, h, label, hn]
      rfl
    | decimal => cases h
  · cases h
    rfl
  · cases h

theorem commandWith_mimic (h : s.tileId? target = some tile) : commandWith bodies s (.mimic target) =
    pure (mimicLines s.margin (tileLookup (tileText tile (label target)))) := by
  have lookup : mimicLookup bodies s target = pure (tileLookup (tileText tile (label target))) := by
    rw [mimicLookup, foldTile?_eq h]
    dsimp only
    rw [expression, pure_bind]
    rfl
  have closing : "end\n" = "end" ++ "\n" := by decide +kernel
  have line : line bodies s (.mimic target) = some <$> mimic bodies s target := rfl
  rw [commandWith, line, mimic, lookup, pure_bind, map_pure, pure_bind]
  dsimp only
  unfold mimicLines
  rw [closing]
  simp only [toString, String.append_assoc]

/-- A block that is one mimic of a known tile compiles to the lines of the mimic and those of the decoration
around it. -/
theorem commandsWith_sole (h : s.tileId? target = some tile)
    {after : List Command} (hafter : ∀ c ∈ after, c = .noop ∨ c = .comment ∨ c = .continuedComment) :
    {before : List Command} → (∀ c ∈ before, c = .noop ∨ c = .comment ∨ c = .continuedComment) →
    commandsWith bodies s (before ++ .mimic target :: after) =
      pure (join (before.filterMap (decorationLine? s)) ++
        mimicLines s.margin (tileLookup (tileText tile (label target))) ++
        join (after.filterMap (decorationLine? s)))
  | [], _ => by
    rw [List.nil_append, commandsWith, commandWith_mimic h, commandsWith_decorations hafter, pure_bind,
      pure_bind]
    exact congrArg (fun t => pure (t ++ _)) String.empty_append.symm
  | c :: before, hbefore => by
    obtain ⟨hc, hbefore⟩ := List.forall_mem_cons.mp hbefore
    rw [List.cons_append, commandsWith, commandWith_decoration hc, commandsWith_sole h hafter hbefore,
      pure_bind, pure_bind, join_filterMap_cons]
    simp only [String.append_assoc]

theorem body_sole {index : Nat} (hcs : s.blocks[index]? = some cs) (hsole : Sole target cs)
    (h : s.tileId? target = some tile) :
    ∃ before after, (∀ l ∈ before ++ after, ∃ c, decorationLine? s c = some l) ∧ body s true index =
      pure (join before ++ mimicLines s.margin (tileLookup (tileText tile (label target))) ++ join after) := by
  obtain ⟨before, after, rfl, hall⟩ := hsole
  refine ⟨before.filterMap (decorationLine? s), after.filterMap (decorationLine? s), fun l hl => ?_, ?_⟩
  · rw [← List.filterMap_append] at hl
    obtain ⟨c, -, hc⟩ := List.mem_filterMap.mp hl
    exact ⟨c, hc⟩
  · obtain ⟨n, hn⟩ : ∃ n, s.blocks.length = n + 1 :=
      Nat.exists_eq_succ_of_ne_zero (by have := (List.getElem?_eq_some_iff.mp hcs).1; omega)
    rw [body, hn, bodyWithin_succ hcs, blockWith, if_pos rfl,
      commandsWith_sole h (fun c hc => hall c (List.mem_append_right _ hc))
        (fun c hc => hall c (List.mem_append_left _ hc))]
    exact congrArg pure String.empty_append

/-- The handler of an event whose block is one mimic of a known tile dispatches on the tile. -/
theorem eventStatement_dispatches {script : String} {e : String × Nat} {st : Statement} (hindent : s.indent = 1)
    (hcs : s.blocks[e.2]? = some cs) (hsole : Sole target cs) (htile : s.tileId? target = some tile)
    (h : (eventStatement s script e).result = .ok st) :
    ∃ body, st = .handler script e.1 body ∧ DispatchesOn tile (label target) body := by
  obtain ⟨before, after, hlines, hbody⟩ := body_sole (s := s.withTarget (scriptObject script)) hcs hsole htile
  have margin : (s.withTarget (scriptObject script)).margin = "  " := by
    show String.ofList (List.replicate (2 * s.indent) ' ') = "  "
    rw [hindent]
    decide
  obtain ⟨text, htext, rfl⟩ := eventStatement_eq_ok h
  rw [hbody, margin] at htext
  refine ⟨text, rfl, before, after, fun l hl => ?_, (Except.ok.inj htext).symm⟩
  obtain ⟨c, hc⟩ := hlines l hl
  cases c with
  | comment =>
    left
    rw [← Option.some.inj hc, margin]
    decide +kernel
  | continuedComment =>
    right
    rw [← Option.some.inj hc, margin]
    decide +kernel
  | _ => cases hc

theorem eventStatement_candidates {script : String} {e : String × Nat} {st : Statement}
    (h : (eventStatement s script e).result = .ok st) :
    (eventStatement s script e).log.filterMap Entry.candidate? =
      (((s.blocks[e.2]?).bind (pureMimic? s)).map fun tile => (⟨script, e.1, tile⟩ : Candidate)).toList := by
  obtain ⟨cs, hcs, h⟩ := Outcome.result_bind_eq_ok_iff.mp h
  obtain ⟨text, htext, -⟩ := Outcome.result_bind_eq_ok_iff.mp h
  have block : s.blocks[e.2]? = some cs := by
    change s.blockAt e.2 = .ok cs at hcs
    rw [Scope.blockAt] at hcs
    split at hcs
    · cases hcs
      assumption
    · cases hcs
  have none : (body (s.withTarget (scriptObject script)) true e.2).log.filterMap Entry.candidate? = [] :=
    filterMap_candidate?_eq_nil fun c hc => bodyWithin_records _ _ _ _ _ hc
  rw [eventStatement, Outcome.bind_of_ok hcs, Outcome.bind_of_ok htext, block, Option.bind_some]
  show ([] ++ ((body (s.withTarget (scriptObject script)) true e.2).log ++ _)).filterMap _ = _
  rw [List.nil_append, List.filterMap_append, none, List.nil_append]
  cases pureMimic? s cs <;> rfl

/-- The candidate that an event of a script gives, as far as its block is one mimic of a known tile. -/
def candidate? (r : Registry) (s : Scope) (x : Script) (e : String × Nat) : Option Candidate :=
  (r.nameOf? x.key).bind fun name =>
    ((x.blocks[e.2]?).bind (pureMimic? s)).map fun tile => ⟨name, e.1, tile⟩

variable {r : Registry} {x : Script}

theorem scriptStatements_candidates {sts : List Statement} (h : (scriptStatements r s x).result = .ok sts) :
    (scriptStatements r s x).log.filterMap Entry.candidate? = x.events.filterMap (candidate? r s x) := by
  rw [scriptStatements] at h ⊢
  cases hname : r.nameOf? x.key with
  | none =>
    have none : ∀ e, candidate? r s x e = none := fun e => by rw [candidate?, hname]; rfl
    exact (List.filterMap_eq_nil_iff.mpr fun e _ => none e).symm
  | some name =>
    rw [hname] at h
    dsimp only at h ⊢
    obtain ⟨handlers, hhandlers, -⟩ := Outcome.result_bind_eq_ok_iff.mp h
    obtain ⟨-, hlog⟩ := Outcome.mapM_eq_ok hhandlers
    rw [Outcome.bind_of_ok hhandlers, hlog]
    show (_ ++ []).filterMap _ = _
    rw [List.append_nil, List.filterMap_flatMap, List.filterMap_eq_flatMap_toList]
    refine List.flatMap_congr fun e he => ?_
    obtain ⟨st, -, hst⟩ := Outcome.exists_of_mapM_eq_ok hhandlers he
    rw [eventStatement_candidates hst, candidate?, hname]
    rfl

theorem statements_candidates {xs : List Script} {sts : List Statement}
    (h : (statements r s xs).result = .ok sts) :
    (statements r s xs).log.filterMap Entry.candidate? =
      (firstScripts [] xs).flatMap fun x => x.events.filterMap (candidate? r s x) := by
  obtain ⟨lists, hlists, h⟩ := Outcome.result_bind_eq_ok_iff.mp h
  obtain ⟨-, hlog⟩ := Outcome.mapM_eq_ok hlists
  rw [statements, Outcome.bind_of_ok hlists, hlog]
  show (_ ++ []).filterMap _ = _
  rw [List.append_nil, List.filterMap_flatMap]
  refine List.flatMap_congr fun x hx => ?_
  obtain ⟨sts, -, hsts⟩ := Outcome.exists_of_mapM_eq_ok hlists hx
  exact scriptStatements_candidates hsts

/-- An event whose block is one mimic of a known tile has a handler among the statements, which dispatches on
the tile. -/
theorem exists_handler {xs : List Script} {sts : List Statement} (h : (statements r s xs).result = .ok sts)
    (hindent : s.indent = 1) (hx : x ∈ firstScripts [] xs) {e : String × Nat} (he : e ∈ x.events)
    {name : String} (hname : r.nameOf? x.key = some name) (hcs : x.blocks[e.2]? = some cs)
    (hsole : Sole target cs) (htile : s.tileId? target = some tile) :
    ∃ body, .handler name e.1 body ∈ sts ∧ DispatchesOn tile (label target) body := by
  obtain ⟨lists, hlists, h⟩ := Outcome.result_bind_eq_ok_iff.mp h
  cases h
  obtain ⟨own, hown, hstatements⟩ := Outcome.exists_of_mapM_eq_ok hlists hx
  rw [scriptStatements, hname] at hstatements
  obtain ⟨handlers, hhandlers, h⟩ := Outcome.result_bind_eq_ok_iff.mp hstatements
  cases h
  obtain ⟨st, hst, hresult⟩ := Outcome.exists_of_mapM_eq_ok hhandlers he
  obtain ⟨body, rfl, hbody⟩ :=
    eventStatement_dispatches (s := s.withBlocks x.blocks) hindent hcs hsole htile hresult
  exact ⟨body, List.mem_flatten.mpr ⟨_, hown, List.mem_cons_of_mem _ hst⟩, hbody⟩

/-- Where no slot is given two handlers, a slot has one statement. -/
theorem eq_of_slot? {k : Slot} {st st' : Statement} : {sts : List Statement} →
    (sts.filterMap Statement.slot?).Nodup → st ∈ sts → st' ∈ sts → st.slot? = some k → st'.slot? = some k →
      st = st'
  | [], _, h, _, _, _ => nomatch h
  | own :: sts, hnodup, h, h', hk, hk' => by
    have later : ∀ {st}, st ∈ sts → st.slot? = some k → k ∈ sts.filterMap Statement.slot? :=
      fun hst hk => List.mem_filterMap.mpr ⟨_, hst, hk⟩
    have rest : (sts.filterMap Statement.slot?).Nodup :=
      hnodup.sublist ((List.sublist_cons_self own sts).filterMap _)
    have first : own.slot? = some k → k ∉ sts.filterMap Statement.slot? := by
      intro hown
      rw [List.filterMap_cons_some hown] at hnodup
      exact (List.nodup_cons.mp hnodup).1
    rcases List.mem_cons.mp h with rfl | hst <;> rcases List.mem_cons.mp h' with rfl | hst'
    · rfl
    · exact absurd (later hst' hk') (first hk)
    · exact absurd (later hst hk) (first hk')
    · exact eq_of_slot? rest hst hst' hk hk'

/-- The candidates of a script are among its slots, in the order of its events. -/
theorem candidates_sublist {name : String} (hname : r.nameOf? x.key = some name) :
    ((x.events.filterMap (candidate? r s x)).map fun c => (c.source, c.event)).Sublist
      (x.events.map fun e => (name, e.1)) := by
  have each : ∀ e c, candidate? r s x e = some c → (c.source, c.event) = (name, e.1) := by
    intro e c hc
    simp only [candidate?, Option.bind_eq_some_iff, Option.map_eq_some_iff] at hc
    obtain ⟨name', hname', tile, -, rfl⟩ := hc
    rw [hname] at hname'
    cases hname'
    rfl
  induction x.events with
  | nil => exact List.Sublist.refl _
  | cons e es ih =>
    rw [List.map_cons]
    cases hc : candidate? r s x e with
    | none =>
      rw [List.filterMap_cons_none hc]
      exact ih.cons _
    | some c =>
      rw [List.filterMap_cons_some hc, List.map_cons, each e c hc]
      exact ih.cons_cons _

end Mimic

namespace Game

variable {p : Assembly.Parts}

/-- What compiling a game records of candidates it records with the scripts. -/
theorem candidates_eq (hp : (g.outcome options).result = .ok p) : (g.ledger options).candidates =
    (firstScripts [] g.scripts).flatMap fun x =>
      x.events.filterMap (Mimic.candidate? p.registry (Assembly.tileScope options g) x) := by
  obtain ⟨tiles, htiles, h⟩ := Outcome.result_bind_eq_ok_iff.mp hp
  obtain ⟨r, hr, h⟩ := Outcome.result_bind_eq_ok_iff.mp h
  obtain ⟨t, ht, h⟩ := Outcome.result_bind_eq_ok_iff.mp h
  cases h
  have hsts := ht
  rw [Compile.scripts_eq] at hsts
  obtain ⟨sts, hsts, -⟩ := Outcome.result_bind_eq_ok_iff.mp hsts
  have fromTiles : (Assembly.tileTable g (Atlas.build g.frames)).log.filterMap Entry.candidate? = [] :=
    filterMap_candidate?_eq_nil fun c hc => Assembly.tileTable_records g _ _ hc
  have fromRegistry : (Registry.build g).log.filterMap Entry.candidate? = [] :=
    filterMap_candidate?_eq_nil fun c hc => Registry.build_records g _ hc
  have fromScripts := Mimic.statements_candidates hsts
  have log : (Compile.scripts r (Assembly.tileScope options g) g.scripts).log =
      (statements r (Assembly.tileScope options g) g.scripts).log := by
    rw [Compile.scripts_eq, Outcome.log_map]
  rw [ledger, Ledger.candidates_recordAll, outcome, Assembly.parts, Outcome.bind_of_ok htiles,
    Outcome.bind_of_ok hr, Outcome.bind_of_ok ht]
  show [] ++ (_ ++ (_ ++ (_ ++ []))).filterMap _ = _
  rw [List.nil_append, List.append_nil, List.filterMap_append, List.filterMap_append, fromTiles, fromRegistry,
    log, fromScripts]
  rfl

/-- An event of a script is a pure mimic of a literal: its block is one mimic of the literal, which denotes a
tile, with nothing but decoration around it. The candidate names the script, the event and the tile. -/
structure PureMimic (g : Game) (r : Registry) (x : Script) (e : String × Nat) (target : Expr) (c : Candidate) :
    Prop where
  source : r.nameOf? x.key = some c.source
  event : c.event = e.1
  block : ∃ cs, x.blocks[e.2]? = some cs ∧ Mimic.Sole target cs
  tile : g.Denotes target c.tile

/-- The literal of a pure mimic is known as a tile just when it denotes it. -/
theorem tileId?_of_sole {text : String} (hg : Game.load text = .ok g) {x : Script} (hx : x ∈ g.scripts)
    {i : Nat} {cs : Block} (hcs : x.blocks[i]? = some cs) {target : Expr} (hsole : Mimic.Sole target cs) {tile : Int} :
    (Assembly.tileScope options g).tileId? target = some tile ↔ g.Denotes target tile := by
  obtain ⟨before, after, rfl, -⟩ := hsole
  refine tileId?_eq_some_iff (load_mimic_ne_tile hg hx (List.mem_of_getElem? hcs) ?_)
  exact List.mem_append_right _ List.mem_cons_self

theorem candidate?_eq_some_iff {text : String} (hg : Game.load text = .ok g) (r : Registry) {x : Script}
    (hx : x ∈ g.scripts) (e : String × Nat) (c : Candidate) :
    Mimic.candidate? r (Assembly.tileScope options g) x e = some c ↔ ∃ target, g.PureMimic r x e target c := by
  simp only [Mimic.candidate?, Option.bind_eq_some_iff, Option.map_eq_some_iff, Mimic.pureMimic?_eq_some_iff]
  constructor
  · rintro ⟨name, hname, tile, ⟨cs, hcs, target, hsole, htile⟩, rfl⟩
    exact ⟨target, hname, rfl, ⟨cs, hcs, hsole⟩, (tileId?_of_sole hg hx hcs hsole).mp htile⟩
  · obtain ⟨source, event, tile⟩ := c
    rintro ⟨target, hname, rfl, ⟨cs, hcs, hsole⟩, htile⟩
    exact ⟨source, hname, tile, ⟨cs, hcs, target, hsole, (tileId?_of_sole hg hx hcs hsole).mpr htile⟩, rfl⟩

/-- No slot is a candidate twice. -/
theorem nodup_candidates {text : String} (hg : Game.load text = .ok g)
    (hp : (g.outcome options).result = .ok p) :
    ((g.ledger options).candidates.map fun c => (c.source, c.event)).Nodup := by
  refine (nodup_slots (load_events_nodup hg)).sublist ?_
  rw [candidates_eq hp, Registry.eq_ofNamed (registry_of_outcome hp), ← map_fst_named, List.flatMap_map,
    List.map_flatMap, slots]
  refine List.Sublist.flatMap_right _ fun q hq => Mimic.candidates_sublist ?_
  exact Registry.nameOf?_eq_some_iff.mpr ⟨q.1, hq, rfl⟩

/-- The handler of a pure mimic dispatches on the tile that the literal denotes. -/
theorem PureMimic.exists_handler {text : String} (hg : Game.load text = .ok g) {r : Registry}
    {sts : List Statement} (hsts : (statements r (Assembly.tileScope options g) g.scripts).result = .ok sts)
    {x : Script} (hx : x ∈ firstScripts [] g.scripts) {e : String × Nat} (he : e ∈ x.events) {target : Expr}
    {c : Candidate} (h : g.PureMimic r x e target c) :
    ∃ body, .handler c.source c.event body ∈ sts ∧ Mimic.DispatchesOn c.tile (Mimic.label target) body := by
  obtain ⟨cs, hcs, hsole⟩ := h.block
  rw [h.event]
  exact Mimic.exists_handler hsts (by rw [Assembly.tileScope_eq]; rfl) hx he h.source hcs hsole
    ((tileId?_of_sole hg (mem_of_mem_firstScripts hx) hcs hsole).mpr h.tile)

/-- The candidates of a loaded game that compiles are the pure mimics among the events of its first scripts, in
the order of the scripts and of their events; every script has a name. No slot is a candidate twice. For each
pure mimic the registry has the event, and the statements of the scripts hold one handler, whose body dispatches
on the tile of the candidate. The texts are those of the printer: a tile's name stands in a comment of the body,
which `]]]` in the name ends early, and a script's name stands in quotes, where a carriage return is left as it is
and no Lua reads it. -/
theorem candidates_pure {text : String} {product : Product} (hg : Game.load text = .ok g)
    (hproduct : g.compile options = .ok product) :
    ∃ (p : Assembly.Parts) (sts : List Statement) (pick : Script → String × Nat → Option Candidate),
      (g.outcome options).result = .ok p ∧
      product.text = Assembly.unitText options g p (g.ledger options) ∧
      (statements p.registry (Assembly.tileScope options g) g.scripts).result = .ok sts ∧
      p.scripts = join (sts.map Statement.text) ∧
      let candidates := (g.ledger options).candidates
      (∀ x ∈ g.scripts, (∃ name, p.registry.nameOf? x.key = some name) ∧
        ∀ e c, pick x e = some c ↔ ∃ target, g.PureMimic p.registry x e target c) ∧
      candidates = (firstScripts [] g.scripts).flatMap (fun x => x.events.filterMap (pick x)) ∧
      (candidates.map fun c => (c.source, c.event)).Nodup ∧
      ∀ x ∈ firstScripts [] g.scripts, ∀ e ∈ x.events, ∀ target c, g.PureMimic p.registry x e target c →
        p.registry.defines c.source c.event = true ∧
        ∃ body, .handler c.source c.event body ∈ sts ∧ Mimic.DispatchesOn c.tile (Mimic.label target) body ∧
          ∀ body', .handler c.source c.event body' ∈ sts → body' = body := by
  obtain ⟨p, hp⟩ := outcome_of_compile hproduct
  have hscripts := scripts_of_outcome hp
  rw [Compile.scripts_eq] at hscripts
  obtain ⟨sts, hsts, htext⟩ := Outcome.result_bind_eq_ok_iff.mp hscripts
  have registry := Registry.eq_ofNamed (registry_of_outcome hp)
  have slots : sts.filterMap Statement.slot? = g.slots := (lists_of_statements (registry ▸ hsts)).slots
  have picks : ∀ x ∈ g.scripts, ∀ e c, Mimic.candidate? p.registry (Assembly.tileScope options g) x e = some c ↔
      ∃ target, g.PureMimic p.registry x e target c := fun x hx => candidate?_eq_some_iff hg p.registry hx
  refine ⟨p, sts, Mimic.candidate? p.registry (Assembly.tileScope options g), hp, ?_, hsts,
    (Except.ok.inj htext).symm, fun x hx => ⟨?_, picks x hx⟩, candidates_eq hp, nodup_candidates hg hp,
    fun x hx e he target c hc => ⟨?_, ?_⟩⟩
  · rw [compile_eq, hp] at hproduct
    obtain rfl := Except.ok.inj hproduct
    rfl
  · obtain ⟨y, name, hy, hkey⟩ := exists_mem_named hx
    exact ⟨name, registry ▸ Registry.nameOf?_eq_some_iff.mpr ⟨y, hy, hkey⟩⟩
  · refine defines_of_mem_candidates hp ?_
    rw [candidates_eq hp]
    have picked := (picks x (mem_of_mem_firstScripts hx) e c).mpr ⟨target, hc⟩
    exact List.mem_flatMap.mpr ⟨x, hx, List.mem_filterMap.mpr ⟨e, he, picked⟩⟩
  · obtain ⟨body, hmem, hbody⟩ := hc.exists_handler hg hsts hx he
    refine ⟨body, hmem, hbody, fun body' hmem' => ?_⟩
    have nodup : (sts.filterMap Statement.slot?).Nodup := by
      rw [slots]
      exact nodup_slots (load_events_nodup hg)
    have same := Mimic.eq_of_slot? nodup hmem' hmem rfl rfl
    exact (Statement.handler.inj same).2.2

set_option maxRecDepth 100000 in
/-- A tile that mimics itself under the name that another one has as well, among decoration, and once more with
a command behind the mimic. -/
theorem candidates_pure_lamp :
    let text := "[\"g\",null,[0,0,0,0],[],[[1,\"lamp\"],[2,\"lamp\"]],[],[],[]," ++
      "[[1,2,\x7b\"__blocks\":[[[\"#\"],[\"mimic\",\"lamp\"],[\"_\"]],[[\"mimic\",2],[\"done\"]]]," ++
      "\"load\":[\"block\",0],\"any\":[\"block\",1]\x7d]]]"
    ∃ (g : Game) (product : Product) (sts : List Statement) (remark body : String),
      Game.load text = .ok g ∧ g.compile .standard = .ok product ∧
      (∃ p, (g.outcome .standard).result = .ok p ∧ p.scripts = join (sts.map Statement.text)) ∧
      (g.ledger .standard).candidates = [⟨"lamp", "load", 2⟩] ∧ .handler "lamp" "load" body ∈ sts ∧
      Mimic.DispatchesOn 2 remark body := by
  intro text
  have compiles : ((Game.load text).toOption.bind fun g =>
      (g.compile .standard).toOption).isSome = true := by decide +kernel
  have recorded : ((Game.load text).toOption.map fun g => (g.ledger .standard).candidates) =
      some [⟨"lamp", "load", 2⟩] := by decide +kernel
  obtain ⟨g, product, hg, hproduct⟩ := exists_product compiles
  have candidates : (g.ledger .standard).candidates = [⟨"lamp", "load", 2⟩] := by
    rw [hg] at recorded
    exact Option.some.inj recorded
  obtain ⟨p, sts, pick, hp, -, -, hscripts, picks, picked, -, handlers⟩ := candidates_pure hg hproduct
  have hc : (⟨"lamp", "load", 2⟩ : Candidate) ∈ (g.ledger .standard).candidates := by simp [candidates]
  rw [picked] at hc
  obtain ⟨x, hx, hc⟩ := List.mem_flatMap.mp hc
  obtain ⟨e, he, hc⟩ := List.mem_filterMap.mp hc
  obtain ⟨target, hpure⟩ := ((picks x (mem_of_mem_firstScripts hx)).2 e _).mp hc
  obtain ⟨-, body, hbody, dispatches, -⟩ := handlers x hx e he target _ hpure
  exact ⟨g, product, sts, Mimic.label target, body, hg, hproduct, ⟨p, hp, hscripts⟩, candidates, hbody,
    dispatches⟩

end Game
end GameScript
