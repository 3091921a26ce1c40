import GameScript.Proofs.Document.Events

/-! The stored form of scripts. Every expression, command and script has one: arrays of a tag and
arguments, plain values for literals, and references to blocks by index. The main statement is that
decoding the stored form of a well-formed script gives back the script. -/

namespace GameScript

/-- The reference to a block. -/
def storedBody (index : Nat) : Json := .array [.string "block", .number (.integer index)]

namespace Expr

mutual

/-- The stored form of an expression. Tiles known by id only arise later; the id stands for them. -/
def stored : Expr → Json
  | .string s => .string s
  | .number n => .number n
  | .bool b => .bool b
  | .nil => .null
  | .read name => .array [.string "get", .string name]
  | .tile id _ => .number (.integer id)
  | .format parts => .array (.string "format" :: storedAll parts)
  | .embed inner => .array [.string "embed", stored inner]
  | .pair x y => .array [.string "xy", stored x, stored y]
  | .rect parts => .array (.string "rect" :: storedAll parts)
  | .nameOf args => .array (.string "name" :: storedAll args)
  | .value op args => .array (.string op.opcode :: storedAll args)
  | .block index => storedBody index
  | .unknown tag => .array [.string tag]

def storedAll : List Expr → List Json
  | [] => []
  | e :: es => stored e :: storedAll es

end

mutual

/-- An expression that a script of so many blocks can hold: the blocks that it refers to exist, its rectangles
have three parts or more, and what it holds as unknown is no tag. A tile known by id is no part of a script,
and a name is looked up by its own expression. -/
def WellFormed (count : Nat) : Expr → Prop
  | .string _ | .number _ | .bool _ | .nil | .read _ => True
  | .tile _ _ => False
  | .format parts | .nameOf parts => AllWellFormed count parts
  | .embed inner => WellFormed count inner
  | .pair x y => WellFormed count x ∧ WellFormed count y
  | .rect parts => 3 ≤ parts.length ∧ AllWellFormed count parts
  | .value op args => op ≠ .name ∧ AllWellFormed count args
  | .block index => index < count
  | .unknown tag => ∀ t : ExprTag, t.text ≠ tag

def AllWellFormed (count : Nat) : List Expr → Prop
  | [] => True
  | e :: es => WellFormed count e ∧ AllWellFormed count es

end

end Expr

def Comparison.stored (c : Comparison) : Json :=
  .array [.string c.op.name, c.left.stored, c.right.stored]

def Comparison.WellFormed (count : Nat) (c : Comparison) : Prop :=
  c.left.WellFormed count ∧ c.right.WellFormed count

def Clause.stored : Clause → Json
  | .elseIf c block => .array [.string "elseif", c.stored, storedBody block]
  | .otherwise block => .array [.string "else", storedBody block]

def Clause.WellFormed (count : Nat) : Clause → Prop
  | .elseIf c block => c.WellFormed count ∧ block < count
  | .otherwise block => block < count

namespace TellTarget

def stored : TellTarget → Json
  | place x y => .array [.string "xy", x.stored, y.stored]
  | room => .array [.string "get", .string "event.room"]
  | player => .array [.string "get", .string "event.player"]
  | game => .array [.string "get", .string "event.game"]
  | named name => name.stored

/-- What is found by name is none of the targets that have a form of their own. -/
def WellFormed (count : Nat) : TellTarget → Prop
  | place x y => x.WellFormed count ∧ y.WellFormed count
  | room | player | game => True
  | named name => name.WellFormed count ∧ (∀ x y, name ≠ .pair x y) ∧
      name ≠ .read "event.room" ∧ name ≠ .read "event.player" ∧ name ≠ .read "event.game"

end TellTarget

namespace Command

def stored : Command → Json
  | noop => .array [.string "_"]
  | comment => .array [.string "#"]
  | continuedComment => .array [.string "#$"]
  | done => .array [.string "done"]
  | assign target op value => .array [.string op.name, .string target, value.stored]
  | increment target => .array [.string "inc", .string target]
  | decrement target => .array [.string "dec", .string target]
  | cond c block clauses =>
      .array (.string "if" :: c.stored :: storedBody block :: clauses.map Clause.stored)
  | loop c block => .array [.string "while", c.stored, storedBody block]
  | call name => .array [.string "call", name.stored]
  | emit name => .array [.string "emit", name.stored]
  | mimic target => .array [.string "mimic", target.stored]
  | tell target block => .array [.string "tell", target.stored, storedBody block]
  | effect op args => .array (.string op.name :: Expr.storedAll args)
  | unknown tag => .array [.string tag]

def WellFormed (count : Nat) : Command → Prop
  | noop | comment | continuedComment | done | increment _ | decrement _ => True
  | assign _ _ value => value.WellFormed count
  | cond c block clauses =>
      c.WellFormed count ∧ block < count ∧ ∀ clause ∈ clauses, clause.WellFormed count
  | loop c block => c.WellFormed count ∧ block < count
  | call name | emit name | mimic name => name.WellFormed count
  | tell target block => target.WellFormed count ∧ block < count
  | effect _ args => Expr.AllWellFormed count args
  | unknown tag => ∀ t : CommandTag, t.text ≠ tag

end Command

namespace Script

/-- The blocks of a script, as they are stored. -/
def storedBlocks (x : Script) : Json :=
  .array (x.blocks.map fun cs => .array (cs.map Command.stored))

/-- The events of a script, as they are stored. -/
def storedEvents (x : Script) : Table String Json := x.events.map fun e => (e.1, storedBody e.2)

/-- The stored form of a script: its blocks come before its events. -/
def stored (x : Script) : ScriptRecord :=
  ⟨x.id, x.kind.code, ("__blocks", x.storedBlocks) :: x.storedEvents⟩

structure WellFormed (x : Script) : Prop where
  distinct : (x.events.map Prod.fst).Nodup
  unreserved : ∀ e ∈ x.events, ¬ ['_', '_'] <+: e.1.toList
  events : ∀ e ∈ x.events, e.2 < x.blocks.length
  blocks : ∀ cs ∈ x.blocks, ∀ c ∈ cs, c.WellFormed x.blocks.length

end Script

/-! ### Tags -/

theorem ExprTag.ofText?_text {t : ExprTag} (h : t ≠ .value .name) : ofText? t.text = some t := by
  cases t with
  | value op =>
    have operation : ExprTag.fixed.find? (fun t => t.text = op.opcode) = none := by
      cases op with
      | name => exact absurd rfl h
      | _ => decide
    rw [ExprTag.text, ofText?, operation, ValueOp.ofName?_opcode]
    rfl
  | _ => decide

theorem ExprTag.ofText?_eq_none {tag : String} (h : ∀ t : ExprTag, t.text ≠ tag) :
    ofText? tag = none := by
  have fixed : ExprTag.fixed.find? (fun t => t.text = tag) = none := by simp [h]
  have values : ValueOp.ofName? tag = none :=
    List.find?_eq_none.mpr fun op _ hop => h (.value op) (of_decide_eq_true hop)
  rw [ofText?, fixed, values]
  rfl

theorem CommandTag.ofText?_text (t : CommandTag) : ofText? t.text = some t := by
  cases t with
  | assign op => cases op <;> decide
  | effect op =>
    have operation : CommandTag.fixed.find? (fun t => t.text = op.name) = none := by cases op <;> decide
    rw [CommandTag.text, ofText?, operation, Effect.ofName?_name]
    rfl
  | _ => decide

theorem CommandTag.ofText?_eq_none {tag : String} (h : ∀ t : CommandTag, t.text ≠ tag) :
    ofText? tag = none := by
  have fixed : CommandTag.fixed.find? (fun t => t.text = tag) = none := by simp [h]
  have effects : Effect.ofName? tag = none :=
    List.find?_eq_none.mpr fun op _ hop => h (.effect op) (of_decide_eq_true hop)
  rw [ofText?, fixed, effects]
  rfl

namespace Decode

variable {count : Nat}

/-! ### Expressions -/

theorem blockIndex_storedBody {place : String} {index : Nat} (h : index < count) :
    blockIndex count place (storedBody index) = .ok index := by
  simp [blockIndex, storedBody, ExprTag.text, Number.natural?, h]

theorem length_storedAll (es : List Expr) : (Expr.storedAll es).length = es.length := by
  induction es with
  | nil => rfl
  | cons _ es ih => simp [Expr.storedAll, ih]

mutual

theorem expr_stored : (e : Expr) → e.WellFormed count → expr count e.stored = .ok e
  | .string _, _ | .number _, _ | .bool _, _ | .nil, _ => by rw [Expr.stored, expr]
  | .read name, _ => by
    change expr count (.array (.string ExprTag.get.text :: [.string name])) = _
    rw [expr, ExprTag.ofText?_text (by decide)]
    rfl
  | .format parts, h => by
    change expr count (.array (.string ExprTag.format.text :: Expr.storedAll parts)) = _
    rw [expr, ExprTag.ofText?_text (by decide)]
    simp only [exprs_storedAll parts h]
    rfl
  | .embed inner, h => by
    change expr count (.array (.string ExprTag.embed.text :: [inner.stored])) = _
    rw [expr, ExprTag.ofText?_text (by decide)]
    simp only [argument, expr_stored inner h]
    rfl
  | .pair x y, h => by
    change expr count (.array (.string ExprTag.xy.text :: [x.stored, y.stored])) = _
    rw [expr, ExprTag.ofText?_text (by decide)]
    simp only [argument, expr_stored x h.1, expr_stored y h.2]
    rfl
  | .rect parts, h => by
    have enough : ¬ (Expr.storedAll parts).length < 3 := by
      rw [length_storedAll]
      exact Nat.not_lt.mpr h.1
    change expr count (.array (.string ExprTag.rect.text :: Expr.storedAll parts)) = _
    rw [expr, ExprTag.ofText?_text (by decide)]
    simp only [exprs_storedAll parts h.2, if_neg enough]
    rfl
  | .nameOf args, h => by
    change expr count (.array (.string ExprTag.name.text :: Expr.storedAll args)) = _
    rw [expr, ExprTag.ofText?_text (by decide)]
    simp only [exprs_storedAll args h]
    rfl
  | .value op args, h => by
    have named : ExprTag.value op ≠ .value .name := fun heq => h.1 (ExprTag.value.inj heq)
    change expr count (.array (.string (ExprTag.value op).text :: Expr.storedAll args)) = _
    rw [expr, ExprTag.ofText?_text named]
    simp only [exprs_storedAll args h.2]
    rfl
  | .block index, h => by
    change expr count (.array (.string ExprTag.block.text :: [.number (.integer index)])) = _
    rw [expr, ExprTag.ofText?_text (by decide)]
    change Expr.block <$> blockIndex count ExprTag.block.text (storedBody index) = _
    rw [blockIndex_storedBody h]
    rfl
  | .unknown tag, h => by
    rw [Expr.stored, expr, ExprTag.ofText?_eq_none h]

theorem exprs_storedAll : (es : List Expr) → Expr.AllWellFormed count es →
    exprs count (Expr.storedAll es) = .ok es
  | [], _ => rfl
  | e :: es, h => by
    rw [Expr.storedAll, exprs, expr_stored e h.1, exprs_storedAll es h.2]
    rfl

end

/-! ### Commands -/

theorem comparison_stored {place : String} {c : Comparison} (h : c.WellFormed count) :
    comparison count place (some c.stored) = .ok c := by
  rw [Comparison.stored, comparison]
  simp only [List.head?_cons, Option.bind_some, Json.string?, Option.getD_some, Compare.ofName?_name,
    argument, expr_stored _ h.1, expr_stored _ h.2]
  rfl

theorem clause_stored {c : Clause} (h : c.WellFormed count) : clause count c.stored = .ok c := by
  cases c with
  | elseIf c block =>
    rw [Clause.stored, clause]
    change (do
      let c ← comparison count ClauseTag.elseIf.text (some c.stored)
      let b ← body count ClauseTag.elseIf.text (some (storedBody block))
      return Clause.elseIf c b) = _
    rw [comparison_stored h.1, body, blockIndex_storedBody h.2]
    rfl
  | otherwise block =>
    rw [Clause.stored, clause]
    change Clause.otherwise <$> body count ClauseTag.otherwise.text (some (storedBody block)) = _
    rw [body, blockIndex_storedBody h]
    rfl

theorem expr_stored_target {t : TellTarget} (h : t.WellFormed count) :
    ∃ e, expr count t.stored = .ok e ∧ tellTarget e = t := by
  cases t with
  | place x y => exact ⟨.pair x y, expr_stored (.pair x y) h, rfl⟩
  | room => exact ⟨.read "event.room", expr_stored (.read "event.room") trivial, rfl⟩
  | player => exact ⟨.read "event.player", expr_stored (.read "event.player") trivial, rfl⟩
  | game => exact ⟨.read "event.game", expr_stored (.read "event.game") trivial, rfl⟩
  | named name =>
    obtain ⟨hname, hpair, hroom, hplayer, hgame⟩ := h
    refine ⟨name, expr_stored name hname, ?_⟩
    cases name with
    | pair x y => exact absurd rfl (hpair x y)
    | read name =>
      have other : ∀ {s : String}, Expr.read name ≠ .read s → name ≠ s := fun hne h => hne (h ▸ rfl)
      rw [tellTarget, if_neg (other hroom), if_neg (other hplayer), if_neg (other hgame)]
    | _ => rfl

/-- A traversal of stored forms, each of which is decoded. -/
theorem mapM_map_eq_ok {ε α β γ : Type} {stored : α → β} {decode : β → Except ε γ} {result : α → γ}
    {as : List α} (h : ∀ a ∈ as, decode (stored a) = .ok (result a)) :
    (as.map stored).mapM decode = .ok (as.map result) := by
  induction as with
  | nil => rfl
  | cons a as ih =>
    obtain ⟨ha, has⟩ := List.forall_mem_cons.mp h
    rw [List.map_cons, List.mapM_cons, ha, ih has]
    rfl

theorem command_stored {c : Command} (h : c.WellFormed count) :
    command count c.stored = .ok (some c) := by
  have known : ∀ (tag : CommandTag) {args : List Json}, c.stored = .array (.string tag.text :: args) →
      tagged count tag.text args = .ok c → command count c.stored = .ok (some c) := by
    intro tag args hstored htagged
    rw [hstored, command, htagged]
    rfl
  cases c with
  | noop => exact known .noop rfl rfl
  | comment => exact known .comment rfl rfl
  | continuedComment => exact known .continuedComment rfl rfl
  | done => exact known .done rfl rfl
  | assign target op value =>
    refine known (.assign op) rfl ?_
    rw [tagged, CommandTag.ofText?_text]
    simp only [List.head?_cons, targetName, argument, expr_stored value h]
    rfl
  | increment target => exact known .increment rfl rfl
  | decrement target => exact known .decrement rfl rfl
  | cond c block clauses =>
    obtain ⟨hc, hblock, hclauses⟩ := h
    refine known .cond rfl ?_
    have all : (clauses.map Clause.stored).mapM (clause count) = .ok (clauses.map id) :=
      mapM_map_eq_ok fun clause hclause => clause_stored (hclauses clause hclause)
    rw [tagged, CommandTag.ofText?_text]
    simp only [List.drop_succ_cons, List.drop_zero, List.head?_cons, List.getElem?_cons_succ,
      List.getElem?_cons_zero, all, List.map_id, comparison_stored hc, body, blockIndex_storedBody hblock]
    rfl
  | loop c block =>
    refine known .loop rfl ?_
    rw [tagged, CommandTag.ofText?_text]
    simp only [List.head?_cons, List.getElem?_cons_succ, List.getElem?_cons_zero, comparison_stored h.1,
      body, blockIndex_storedBody h.2]
    rfl
  | call name =>
    refine known .call rfl ?_
    rw [tagged, CommandTag.ofText?_text]
    simp only [argument, expr_stored name h]
    rfl
  | emit name =>
    refine known .emit rfl ?_
    rw [tagged, CommandTag.ofText?_text]
    simp only [argument, expr_stored name h]
    rfl
  | mimic target =>
    refine known .mimic rfl ?_
    rw [tagged, CommandTag.ofText?_text]
    simp only [argument, expr_stored target h]
    rfl
  | tell target block =>
    obtain ⟨e, he, htarget⟩ := expr_stored_target h.1
    refine known .tell rfl ?_
    rw [tagged, CommandTag.ofText?_text]
    simp only [argument, List.getElem?_cons_succ, List.getElem?_cons_zero, he, body,
      blockIndex_storedBody h.2]
    rw [← htarget]
    rfl
  | effect op args =>
    refine known (.effect op) rfl ?_
    rw [tagged, CommandTag.ofText?_text]
    simp only [exprs_storedAll args h]
    rfl
  | unknown tag =>
    rw [Command.stored, command, tagged, CommandTag.ofText?_eq_none h]
    rfl

/-! ### Scripts -/

theorem block_stored {script : Int} {index : Nat} {cs : Block} (h : ∀ c ∈ cs, c.WellFormed count) :
    block script count index (.array (cs.map Command.stored)) = .ok cs := by
  have all : (cs.map Command.stored).mapM (command count) = .ok (cs.map some) :=
    mapM_map_eq_ok fun c hc => command_stored (h c hc)
  rw [block, all]
  exact congrArg Except.ok (by simp [List.filterMap_map])

theorem blocksFrom_stored {script : Int} : {index : Nat} → {bs : List Block} →
    (∀ cs ∈ bs, ∀ c ∈ cs, c.WellFormed count) →
      blocksFrom script count index (bs.map fun cs => .array (cs.map Command.stored)) = .ok bs
  | _, [], _ => rfl
  | _, cs :: bs, h => by
    obtain ⟨hcs, hbs⟩ := List.forall_mem_cons.mp h
    rw [List.map_cons, blocksFrom, block_stored hcs, blocksFrom_stored hbs]
    rfl

theorem isEvent_iff {key : String} : isEvent key = true ↔ ¬ ['_', '_'] <+: key.toList := by
  rw [isEvent, Bool.not_eq_true', ← Bool.not_eq_true, List.isPrefixOf_iff_prefix, metaPrefix]

theorem events_stored {events : List (String × Nat)} (h : ∀ e ∈ events, e.2 < count) :
    (events.map fun e => (e.1, storedBody e.2)).mapM (fun e => do
      let index ← blockIndex count s!"event `{e.1}`" e.2
      return (e.1, index)) = (.ok events : Except DecodeError _) := by
  have all : (events.map fun e => (e.1, storedBody e.2)).mapM (fun e => do
      let index ← blockIndex count s!"event `{e.1}`" e.2
      return (e.1, index)) = (.ok (events.map id) : Except DecodeError _) := by
    refine mapM_map_eq_ok fun e he => ?_
    simp only [blockIndex_storedBody (h e he)]
    rfl
  rw [all, List.map_id]

end Decode

namespace Script

open Decode

variable {x : Script}

/-- A record whose entries for events and for the blocks are the stored ones is decoded to the script, whatever
else it holds. -/
theorem WellFormed.decode_of_data (h : x.WellFormed) {data : Table String Json}
    (hblocks : Table.get? data blocksKey = some x.storedBlocks)
    (hevents : (data.filter fun e => isEvent e.1) = x.storedEvents) :
    Script.decode ⟨x.id, x.kind.code, data⟩ = .ok x := by
  let values := x.blocks.map fun cs => Json.array (cs.map Command.stored)
  have hvalues : blockValues ⟨x.id, x.kind.code, data⟩ = .ok values := by
    rw [blockValues, hblocks]
    rfl
  have hlength : values.length = x.blocks.length := List.length_map ..
  have blocks : Decode.blocks x.id values = .ok x.blocks := by
    rw [Decode.blocks, hlength]
    exact blocksFrom_stored h.blocks
  have events : Decode.events values.length data = .ok x.events := by
    rw [Decode.events, hevents, hlength]
    exact events_stored h.events
  rw [Script.decode, ScriptKind.ofCode?_code]
  simp only [hvalues, blocks, events, bind, Except.bind]
  rfl

/-- The stored form of a well-formed script is an object, with every key once, and decoding it gives the
script: its events in order, its blocks and in them every command and expression at any depth. -/
theorem decode_stored (h : x.WellFormed) : x.stored.Distinct ∧ Script.decode x.stored = .ok x := by
  have keys : Table.keys x.storedEvents = x.events.map Prod.fst := by
    rw [storedEvents, Table.keys, List.map_map]
    rfl
  have event : ∀ e ∈ x.storedEvents, isEvent e.1 = true := by
    intro e he
    obtain ⟨e', he', rfl⟩ := List.mem_map.mp he
    exact isEvent_iff.mpr (h.unreserved e' he')
  have blocks : isEvent "__blocks" = false := by decide
  refine ⟨List.nodup_cons.mpr ⟨fun hmem => ?_, ?_⟩, h.decode_of_data rfl ?_⟩
  · obtain ⟨e, he, hkey⟩ := List.mem_map.mp hmem
    have := event e he
    rw [hkey] at this
    exact Bool.false_ne_true (blocks.symm.trans this)
  · rw [← Table.keys, keys]
    exact h.distinct
  · exact (List.filter_cons_of_neg (by simp [blocks])).trans (List.filter_eq_self.mpr event)

/-- A script of a tile whose handler asks, tells what is found by name, and does something unknown. -/
theorem decode_stored_door :
    let ask : Command := .effect .ask [.rect [.number (.integer 1), .number (.integer 2), .read "w"],
      .format [.string "open ", .nameOf [.pair .nil (.value .floor [.read "y"])]], .block 1]
    let locked : Comparison := ⟨.neq, .string "keys", .embed (.unknown "vault")⟩
    let x : Script := ⟨.tile, 7, [("interact", 0), ("any", 1)],
      [[.cond locked 1 [.elseIf ⟨.lt, .bool true, .nil⟩ 1, .otherwise 1], ask],
        [.tell (.named (.read "event.x")) 0, .unknown "teleport", .assign "keys" .sub (.nil)]]⟩
    x.WellFormed ∧ x.stored.Distinct ∧ Script.decode x.stored = .ok x := by
  intro ask locked x
  have vault : ∀ t : ExprTag, t.text ≠ "vault" := by
    intro t
    cases t with
    | value op => cases op <;> decide
    | _ => decide
  have teleport : ∀ t : CommandTag, t.text ≠ "teleport" := by
    intro t
    cases t with
    | assign op => cases op <;> decide
    | effect op => cases op <;> decide
    | _ => decide
  have h : x.WellFormed := by
    refine ⟨by decide, by decide, by decide, ?_⟩
    simp [x, ask, locked, Command.WellFormed, Comparison.WellFormed, Clause.WellFormed,
      TellTarget.WellFormed, Expr.WellFormed, Expr.AllWellFormed, vault, teleport]
  exact ⟨h, decode_stored h⟩

end Script
end GameScript
