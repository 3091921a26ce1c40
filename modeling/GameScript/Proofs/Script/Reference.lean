import GameScript.Script.Decode
import Mathlib.Data.List.Forall2
import Mathlib.Logic.Relation

/-! References to blocks. `refs` lists the indices of the blocks that a piece of syntax refers to, at
any depth and whether or not a compile looks at them. The main statement is that every reference in a
decoded script is to a block that the script has. -/

namespace GameScript

namespace Expr

mutual

/-- The blocks that an expression refers to. -/
def refs : Expr → List Nat
  | .format parts | .rect parts | .nameOf parts | .value _ parts => listRefs parts
  | .embed inner => refs inner
  | .pair x y => refs x ++ refs y
  | .block index => [index]
  | .string _ | .number _ | .bool _ | .nil | .read _ | .tile _ _ | .unknown _ => []

def listRefs : List Expr → List Nat
  | [] => []
  | e :: es => refs e ++ listRefs es

end

end Expr

def Comparison.refs (c : Comparison) : List Nat := c.left.refs ++ c.right.refs

def Clause.refs : Clause → List Nat
  | .elseIf c block => c.refs ++ [block]
  | .otherwise block => [block]

def TellTarget.refs : TellTarget → List Nat
  | .place x y => x.refs ++ y.refs
  | .room | .player | .game => []
  | .named name => name.refs

def Command.refs : Command → List Nat
  | .assign _ _ value => value.refs
  | .cond c block clauses => c.refs ++ block :: clauses.flatMap Clause.refs
  | .loop c block => c.refs ++ [block]
  | .call name | .emit name | .mimic name => name.refs
  | .tell target block => target.refs ++ [block]
  | .effect _ args => Expr.listRefs args
  | .noop | .comment | .continuedComment | .done | .increment _ | .decrement _ | .unknown _ => []

def Block.refs (cs : Block) : List Nat := cs.flatMap Command.refs

/-- The blocks that the events and the commands of a script refer to. -/
def Script.refs (s : Script) : List Nat := s.events.map Prod.snd ++ s.blocks.flatMap Block.refs

/-- The block at one index refers to another index. -/
def Refers (blocks : List Block) (i j : Nat) : Prop := ∃ cs, blocks[i]? = some cs ∧ j ∈ Block.refs cs

/-- No block reaches itself. -/
def Acyclic (blocks : List Block) : Prop := ∀ i, ¬ Relation.TransGen (Refers blocks) i i

/-- Where every block only refers to later ones, no block reaches itself. -/
theorem Acyclic.of_lt {blocks : List Block} (h : ∀ i j, Refers blocks i j → i < j) :
    Acyclic blocks := by
  have reach : ∀ {i j}, Relation.TransGen (Refers blocks) i j → i < j := by
    intro i j hij
    induction hij with
    | single hij => exact h _ _ hij
    | tail _ hjk ih => exact Nat.lt_trans ih (h _ _ hjk)
  exact fun i hi => Nat.lt_irrefl i (reach hi)

theorem Script.mem_refs_of_refers {s : Script} {i j : Nat} (h : Refers s.blocks i j) :
    j ∈ s.refs := by
  obtain ⟨cs, hi, hj⟩ := h
  exact List.mem_append_right _ (List.mem_flatMap.mpr ⟨cs, List.mem_of_getElem? hi, hj⟩)

namespace Decode

variable {ε α β : Type}

theorem bind_eq_ok {x : Except ε α} {f : α → Except ε β} {b : β} (h : x >>= f = .ok b) :
    ∃ a, x = .ok a ∧ f a = .ok b := by
  cases x with
  | error e => cases h
  | ok a => exact ⟨a, rfl, h⟩

theorem map_eq_ok {x : Except ε α} {f : α → β} {b : β} (h : f <$> x = .ok b) :
    ∃ a, x = .ok a ∧ f a = b := by
  cases x with
  | error e => cases h
  | ok a => exact ⟨a, rfl, Except.ok.inj h⟩

theorem mapM_eq_ok {f : α → Except ε β} : {as : List α} → {bs : List β} → as.mapM f = .ok bs →
    List.Forall₂ (fun a b => f a = .ok b) as bs
  | [], _, h => by
    cases h
    exact .nil
  | a :: as, bs, h => by
    rw [List.mapM_cons] at h
    obtain ⟨b, hb, h⟩ := bind_eq_ok h
    obtain ⟨bs, hbs, h⟩ := bind_eq_ok h
    cases h
    exact .cons hb (mapM_eq_ok hbs)

/-- Every result of a traversal comes from one of the values. -/
theorem exists_of_mapM_eq_ok {f : α → Except ε β} {as : List α} {bs : List β}
    (h : as.mapM f = .ok bs) {b : β} (hb : b ∈ bs) : ∃ a ∈ as, f a = .ok b := by
  obtain ⟨i, hi, rfl⟩ := List.getElem_of_mem hb
  have hlength := (mapM_eq_ok h).length_eq
  exact ⟨as[i], List.getElem_mem _, (mapM_eq_ok h).get (by omega) hi⟩

variable {count : Nat}

theorem blockIndex_lt {place : String} {v : Json} {i : Nat} (h : blockIndex count place v = .ok i) :
    i < count := by
  unfold blockIndex at h
  split at h
  · split at h
    · split at h
      · cases h
        assumption
      · cases h
    · cases h
  · cases h

theorem body_lt {place : String} {v : Option Json} {i : Nat} (h : body count place v = .ok i) :
    i < count := by
  cases v with
  | none => cases h
  | some v => exact blockIndex_lt h

mutual

theorem expr_refs_lt : (v : Json) → {e : Expr} → expr count v = .ok e → ∀ i ∈ e.refs, i < count
  | .null, _, h | .bool _, _, h | .number _, _, h | .string _, _, h | .object _, _, h
  | .array [], _, h => by
    cases h
    simp [Expr.refs]
  | .array (.string tag :: args), e, h => by
    rw [expr] at h
    split at h
    · obtain ⟨_, -, rfl⟩ := map_eq_ok h
      simp [Expr.refs]
    · obtain ⟨es, hes, rfl⟩ := map_eq_ok h
      exact exprs_refs_lt args hes
    · obtain ⟨inner, hinner, rfl⟩ := map_eq_ok h
      have := argument_refs_lt 0 args hinner
      exact this
    · split at h
      · cases h
      · obtain ⟨x, hx, h⟩ := bind_eq_ok h
        obtain ⟨y, hy, h⟩ := bind_eq_ok h
        cases h
        intro i hi
        rcases List.mem_append.mp hi with hi | hi
        · exact argument_refs_lt 0 args hx i hi
        · exact argument_refs_lt 1 args hy i hi
    · split at h
      · cases h
      · obtain ⟨es, hes, rfl⟩ := map_eq_ok h
        exact exprs_refs_lt args hes
    · obtain ⟨index, hindex, rfl⟩ := map_eq_ok h
      intro i hi
      rw [List.mem_singleton.mp hi]
      exact blockIndex_lt hindex
    · obtain ⟨es, hes, rfl⟩ := map_eq_ok h
      exact exprs_refs_lt args hes
    · obtain ⟨es, hes, rfl⟩ := map_eq_ok h
      exact exprs_refs_lt args hes
    · cases h
      simp [Expr.refs]
  | .array (.null :: _), _, h | .array (.bool _ :: _), _, h | .array (.number _ :: _), _, h
  | .array (.array _ :: _), _, h | .array (.object _ :: _), _, h => by
    cases h
    simp [Expr.refs]

theorem exprs_refs_lt : (vs : List Json) → {es : List Expr} → exprs count vs = .ok es →
    ∀ i ∈ Expr.listRefs es, i < count
  | [], _, h => by
    cases h
    simp [Expr.listRefs]
  | v :: vs, _, h => by
    obtain ⟨e, he, h⟩ := bind_eq_ok h
    obtain ⟨es, hes, h⟩ := bind_eq_ok h
    cases h
    intro i hi
    rcases List.mem_append.mp hi with hi | hi
    · exact expr_refs_lt v he i hi
    · exact exprs_refs_lt vs hes i hi

theorem argument_refs_lt : (n : Nat) → (vs : List Json) → {e : Expr} →
    argument count n vs = .ok e → ∀ i ∈ e.refs, i < count
  | _, [], _, h => by
    cases h
    simp [Expr.refs]
  | 0, v :: _, _, h => expr_refs_lt v h
  | n + 1, _ :: vs, _, h => argument_refs_lt n vs h

end

theorem comparison_refs_lt {place : String} {v : Option Json} {c : Comparison}
    (h : comparison count place v = .ok c) : ∀ i ∈ c.refs, i < count := by
  unfold comparison at h
  split at h
  · simp only at h
    split at h
    · cases h
    · obtain ⟨left, hleft, h⟩ := bind_eq_ok h
      obtain ⟨right, hright, h⟩ := bind_eq_ok h
      cases h
      intro i hi
      rcases List.mem_append.mp hi with hi | hi
      · exact argument_refs_lt 1 _ hleft i hi
      · exact argument_refs_lt 2 _ hright i hi
  · cases h

theorem clause_refs_lt {v : Json} {c : Clause} (h : clause count v = .ok c) :
    ∀ i ∈ c.refs, i < count := by
  unfold clause at h
  split at h
  · simp only at h
    split at h
    · obtain ⟨comparison, hcomparison, h⟩ := bind_eq_ok h
      obtain ⟨block, hblock, h⟩ := bind_eq_ok h
      cases h
      intro i hi
      rcases List.mem_append.mp hi with hi | hi
      · exact comparison_refs_lt hcomparison i hi
      · rw [List.mem_singleton.mp hi]
        exact body_lt hblock
    · obtain ⟨block, hblock, rfl⟩ := map_eq_ok h
      intro i hi
      rw [List.mem_singleton.mp hi]
      exact body_lt hblock
    · cases h
  · cases h

/-- Decoding an expression as the target of a tell loses no reference. -/
theorem tellTarget_refs (e : Expr) : (tellTarget e).refs = e.refs := by
  unfold tellTarget
  split
  · rfl
  · split_ifs <;> rfl
  · rfl

theorem tagged_refs_lt {tag : String} {args : List Json} {c : Command}
    (h : tagged count tag args = .ok c) : ∀ i ∈ c.refs, i < count := by
  unfold tagged at h
  split at h
  · cases h; simp [Command.refs]
  · cases h; simp [Command.refs]
  · cases h; simp [Command.refs]
  · cases h; simp [Command.refs]
  · obtain ⟨target, -, h⟩ := bind_eq_ok h
    obtain ⟨value, hvalue, h⟩ := bind_eq_ok h
    cases h
    have := argument_refs_lt 1 _ hvalue
    exact this
  · obtain ⟨target, -, rfl⟩ := map_eq_ok h
    simp [Command.refs]
  · obtain ⟨target, -, rfl⟩ := map_eq_ok h
    simp [Command.refs]
  · obtain ⟨clauses, hclauses, h⟩ := bind_eq_ok h
    obtain ⟨comparison, hcomparison, h⟩ := bind_eq_ok h
    obtain ⟨block, hblock, h⟩ := bind_eq_ok h
    cases h
    intro i hi
    rcases List.mem_append.mp hi with hi | hi
    · exact comparison_refs_lt hcomparison i hi
    rcases List.mem_cons.mp hi with rfl | hi
    · exact body_lt hblock
    · obtain ⟨clause, hmem, hi⟩ := List.mem_flatMap.mp hi
      obtain ⟨v, -, hv⟩ := exists_of_mapM_eq_ok hclauses hmem
      exact clause_refs_lt hv i hi
  · obtain ⟨comparison, hcomparison, h⟩ := bind_eq_ok h
    obtain ⟨block, hblock, h⟩ := bind_eq_ok h
    cases h
    intro i hi
    rcases List.mem_append.mp hi with hi | hi
    · exact comparison_refs_lt hcomparison i hi
    · rw [List.mem_singleton.mp hi]
      exact body_lt hblock
  · obtain ⟨name, hname, rfl⟩ := map_eq_ok h
    have := argument_refs_lt 0 _ hname
    exact this
  · obtain ⟨name, hname, rfl⟩ := map_eq_ok h
    have := argument_refs_lt 0 _ hname
    exact this
  · obtain ⟨target, htarget, rfl⟩ := map_eq_ok h
    have := argument_refs_lt 0 _ htarget
    exact this
  · obtain ⟨target, htarget, h⟩ := bind_eq_ok h
    obtain ⟨block, hblock, h⟩ := bind_eq_ok h
    cases h
    intro i hi
    rcases List.mem_append.mp hi with hi | hi
    · rw [tellTarget_refs] at hi
      exact argument_refs_lt 0 _ htarget i hi
    · rw [List.mem_singleton.mp hi]
      exact body_lt hblock
  · obtain ⟨es, hes, rfl⟩ := map_eq_ok h
    have := exprs_refs_lt _ hes
    exact this
  · cases h; simp [Command.refs]

theorem command_refs_lt {v : Json} {c : Option Command} (h : command count v = .ok c) :
    ∀ i ∈ (c.map Command.refs).getD [], i < count := by
  unfold command at h
  split at h
  · obtain ⟨c, hc, rfl⟩ := map_eq_ok h
    exact tagged_refs_lt hc
  · cases h
  · cases h
    simp

theorem block_refs_lt {script : Int} {index : Nat} {v : Json} {cs : Block}
    (h : block script count index v = .ok cs) : ∀ i ∈ Block.refs cs, i < count := by
  unfold block at h
  split at h
  · obtain ⟨cs', hcs, rfl⟩ := map_eq_ok h
    intro i hi
    obtain ⟨c, hc, hi⟩ := List.mem_flatMap.mp hi
    obtain ⟨_, hmem, rfl⟩ := List.mem_filterMap.mp hc
    obtain ⟨v, -, hv⟩ := exists_of_mapM_eq_ok hcs hmem
    exact command_refs_lt hv i hi
  · cases h

theorem blocksFrom_eq_ok {script : Int} : {index : Nat} → {vs : List Json} → {bs : List Block} →
    blocksFrom script count index vs = .ok bs →
      bs.length = vs.length ∧ ∀ cs ∈ bs, ∀ i ∈ Block.refs cs, i < count
  | _, [], _, h => by
    cases h
    simp
  | index, v :: vs, _, h => by
    obtain ⟨cs, hcs, h⟩ := bind_eq_ok h
    obtain ⟨bs, hbs, h⟩ := bind_eq_ok h
    cases h
    obtain ⟨hlength, hrefs⟩ := blocksFrom_eq_ok hbs
    refine ⟨congrArg (· + 1) hlength, ?_⟩
    simpa using ⟨block_refs_lt hcs, hrefs⟩

theorem events_eq_ok {data : Table String Json} {events : List (String × Nat)}
    (h : Decode.events count data = .ok events) : ∀ e ∈ events, e.2 < count := by
  intro e he
  obtain ⟨entry, -, h⟩ := exists_of_mapM_eq_ok h he
  obtain ⟨index, hindex, h⟩ := bind_eq_ok h
  cases h
  exact blockIndex_lt hindex

end Decode

/-- What decoding a script comes to: its events and its blocks are decoded apart, for the number of
blocks that there are. -/
theorem Script.decode_eq_ok {r : ScriptRecord} {s : Script} (h : Script.decode r = .ok s) :
    ∃ values, Decode.blocks r.id values = .ok s.blocks ∧
      Decode.events values.length r.data = .ok s.events := by
  unfold Script.decode at h
  split at h
  · cases h
  · obtain ⟨values, -, h⟩ := Decode.bind_eq_ok h
    obtain ⟨blocks, hblocks, h⟩ := Decode.bind_eq_ok h
    obtain ⟨events, hevents, h⟩ := Decode.bind_eq_ok h
    cases h
    exact ⟨values, hblocks, hevents⟩

/-- Every block that a decoded script refers to is one of its own. -/
theorem Script.refs_lt_of_decode {r : ScriptRecord} {s : Script} (h : Script.decode r = .ok s) :
    ∀ i ∈ s.refs, i < s.blocks.length := by
  obtain ⟨values, hblocks, hevents⟩ := Script.decode_eq_ok h
  obtain ⟨hlength, hrefs⟩ := Decode.blocksFrom_eq_ok hblocks
  intro i hi
  rw [hlength]
  rcases List.mem_append.mp hi with hi | hi
  · obtain ⟨e, he, rfl⟩ := List.mem_map.mp hi
    exact Decode.events_eq_ok hevents e he
  · obtain ⟨cs, hcs, hi⟩ := List.mem_flatMap.mp hi
    exact hrefs cs hcs i hi

end GameScript
