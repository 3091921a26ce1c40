import GameScript.Proofs.Handlers
import GameScript.Proofs.Mimic.Rounds
import Mathlib.Data.List.Basic
import Mathlib.Data.Set.List

/-! The text that folding comes to. It is a block that reads handlers into a list and then writes slots from
the list, by position. Each handler is read once, from a slot that a script defines, and each slot is written at
most once, so whatever the order of the writing, every slot ends up with the handler that folding left in it. -/

namespace GameScript
namespace Mimic

open Lua

/-- A block that reads handlers into a list, and then writes slots with what stands at a position of the list,
counted from one. -/
structure Snapshot where
  reads : List Slot
  writes : List (Slot × Nat)
deriving DecidableEq, Repr

namespace Snapshot

def readLine (k : Slot) : String := s!"    {slotText k},"

def writeLine (w : Slot × Nat) : String := s!"  {slotText w.1} = __folded[{w.2}]"

/-- The lines of the block. -/
def lines (c : Snapshot) : List String :=
  ["-- mimic folding", "do", "  local __folded = \x7b"] ++ c.reads.map readLine ++ ["  \x7d"] ++
    c.writes.map writeLine ++ ["end"]

def text (c : Snapshot) : String := join (c.lines.map fun l => l ++ "\n")

/-- What a position of a list, counted from one, holds. -/
def element {α : Type} (values : List (Option α)) : Nat → Option α
  | 0 => none
  | i + 1 => values[i]?.join

/-- What slots hold after the block. Everything is read before anything is written. -/
def run {α : Type} (c : Snapshot) (h : Slot → Option α) : Slot → Option α :=
  c.writes.foldl (fun h' w => Function.update h' w.1 (element (c.reads.map h) w.2)) h

/-! ### Reading the text -/

theorem toList_line (l : String) (ls : List String) : (join ((l :: ls).map fun l => l ++ "\n")).toList =
    l.toList ++ '\n' :: (join (ls.map fun l => l ++ "\n")).toList := by
  simp [join_cons]

/-- Complete lines are told apart by their text. -/
theorem lines_cancel : {ls ls' : List String} → (∀ l ∈ ls, '\n' ∉ l.toList) → (∀ l ∈ ls', '\n' ∉ l.toList) →
    (join (ls.map fun l => l ++ "\n")).toList = (join (ls'.map fun l => l ++ "\n")).toList → ls = ls'
  | [], [], _, _, _ => rfl
  | [], l :: ls, _, _, h => by
    rw [toList_line] at h
    exact absurd h.symm (List.append_ne_nil_of_right_ne_nil _ (List.cons_ne_nil _ _))
  | l :: ls, [], _, _, h => by
    rw [toList_line] at h
    exact absurd h (List.append_ne_nil_of_right_ne_nil _ (List.cons_ne_nil _ _))
  | l :: ls, l' :: ls', hl, hl', h => by
    obtain ⟨hhead, hl⟩ := List.forall_mem_cons.mp hl
    obtain ⟨hhead', hl'⟩ := List.forall_mem_cons.mp hl'
    rw [toList_line, toList_line] at h
    obtain ⟨hfirst, hrest⟩ := before_cancel hhead hhead' h
    rw [String.toList_injective hfirst, lines_cancel hl hl' hrest]

theorem access_cancel {e e' : String} {r r' : List Char} (h : access e ++ ' ' :: r = access e' ++ ' ' :: r') :
    access e = access e' ∧ r = r' := by
  have blank : ∀ {e : String}, isIdentifier e = true → ' ' ∉ '.' :: e.toList := fun he hmem =>
    (isIdentifier_iff.mp he).1.not_mem (by decide) ((List.mem_cons.mp hmem).resolve_left (by decide))
  unfold access at h ⊢
  split_ifs at h ⊢ with he he' he'
  · exact before_cancel (blank he) (blank he') h
  · exact absurd (List.cons.inj h).1 (by decide)
  · exact absurd (List.cons.inj h).1 (by decide)
  · simp only [List.cons_append, List.append_assoc, List.nil_append] at h
    obtain ⟨rfl, hr⟩ := quote_cancel (List.cons.inj h).2
    exact ⟨rfl, (List.cons.inj (List.cons.inj hr).2).2⟩

/-- The text of a slot is told apart from a blank behind it. -/
theorem slotText_cancel {k k' : Slot} {r r' : List Char}
    (h : (slotText k).toList ++ ' ' :: r = (slotText k').toList ++ ' ' :: r') : k = k' ∧ r = r' := by
  rw [toList_slotText, toList_slotText] at h
  -- what the fixed parts are is of no matter
  generalize "__pulp:getScript(".toList = object, ")".toList = closer at h
  simp only [List.append_assoc] at h
  obtain ⟨hname, h⟩ := quote_cancel (List.append_cancel_left h)
  obtain ⟨hevent, hr⟩ := access_cancel (List.append_cancel_left h)
  exact ⟨Prod.ext hname (access_injective hevent), hr⟩

theorem newline_not_mem_slotText (k : Slot) : '\n' ∉ (slotText k).toList := by
  rw [toList_slotText, access]
  split_ifs with h
  · have name := (isIdentifier_iff.mp h).1.not_mem (c := '\n') (by decide)
    simp [newline_not_mem_quote, name]
  · simp [newline_not_mem_quote]

theorem toList_readLine (k : Slot) : (readLine k).toList = "    ".toList ++ ((slotText k).toList ++ [',']) := by
  simp [readLine, toString]

theorem toList_writeLine (w : Slot × Nat) : (writeLine w).toList = "  ".toList ++
    ((slotText w.1).toList ++ ' ' :: ("= __folded[".toList ++ ((toString w.2).toList ++ [']']))) := by
  simp [writeLine, toString]

theorem readLine_injective : Function.Injective readLine := by
  intro k k' h
  have h := congrArg String.toList h
  rw [toList_readLine, toList_readLine] at h
  exact slotText_injective (String.toList_injective (List.append_cancel_right (List.append_cancel_left h)))

theorem writeLine_injective : Function.Injective writeLine := by
  intro w w' h
  have h := congrArg String.toList h
  rw [toList_writeLine, toList_writeLine] at h
  obtain ⟨hslot, h⟩ := slotText_cancel (List.append_cancel_left h)
  have digits := String.toList_injective (List.append_cancel_right (List.append_cancel_left h))
  exact Prod.ext hslot (Registry.digits_injective digits)

theorem newline_not_mem_lines (c : Snapshot) : ∀ l ∈ c.lines, '\n' ∉ l.toList := by
  have digits : ∀ n : Nat, '\n' ∉ Nat.toDigits 10 n := fun n h => by
    cases Nat.isDigit_of_mem_toDigits (by decide) (by decide) h
  have reads : ∀ k, '\n' ∉ (readLine k).toList := by
    intro k
    rw [toList_readLine]
    simp [newline_not_mem_slotText]
  have writes : ∀ w, '\n' ∉ (writeLine w).toList := by
    intro w
    rw [toList_writeLine]
    simp [newline_not_mem_slotText, digits]
  simp only [lines, List.forall_mem_append, List.forall_mem_map]
  exact ⟨⟨⟨⟨by decide, fun k _ => reads k⟩, by decide +kernel⟩, fun w _ => writes w⟩, by decide +kernel⟩

/-- The line behind the list of handlers is none of the list. -/
theorem closing_ne_readLine (k : Slot) : "  \x7d" ≠ readLine k := by
  intro h
  have h := congrArg String.toList h
  rw [toList_readLine] at h
  simp at h

/-- The text tells what is read and what is written. -/
theorem text_injective : Function.Injective text := by
  intro c c' h
  have h := lines_cancel c.newline_not_mem_lines c'.newline_not_mem_lines (congrArg String.toList h)
  simp only [lines, List.append_assoc] at h
  have h := List.append_cancel_left h
  have closing : ∀ ks : List Slot, "  \x7d" ∉ ks.map readLine := fun ks hmem => by
    obtain ⟨k, -, hk⟩ := List.mem_map.mp hmem
    exact closing_ne_readLine k hk.symm
  obtain ⟨hreads, hwrites⟩ := before_cancel (closing _) (closing _) h
  have reads := readLine_injective.list_map hreads
  have writes := writeLine_injective.list_map (List.append_cancel_right hwrites)
  obtain ⟨_, _⟩ := c
  cases reads
  cases writes
  rfl

theorem text_ne_empty (c : Snapshot) : c.text ≠ "" := by
  intro h
  have h := congrArg String.toList h
  rw [text, lines, List.cons_append, List.cons_append, List.cons_append, List.cons_append, toList_line] at h
  exact List.append_ne_nil_of_right_ne_nil _ (List.cons_ne_nil _ _) h

/-! ### Running the block -/

theorem run_apply {α : Type} {c : Snapshot} (once : (Table.keys c.writes).Nodup) (h : Slot → Option α)
    (k : Slot) :
    c.run h k = match Table.get? c.writes k with
      | some i => element (c.reads.map h) i
      | none => h k := by
  rw [run, Table.foldl_update_apply _ c.writes once]
  cases Table.get? c.writes k <;> rfl

theorem element_map {α : Type} {c : Snapshot} {i : Nat} {b : Slot} (hi : 0 < i) (h : c.reads[i - 1]? = some b)
    (values : Slot → Option α) : element (c.reads.map values) i = values b := by
  obtain ⟨j, rfl⟩ := Nat.exists_eq_succ_of_ne_zero hi.ne'
  rw [Nat.succ_sub_one] at h
  rw [element, List.getElem?_map, h]
  rfl

/-- A block carries out what was written: it reads each handler once, and writes each slot that was given
another handler than its own once, from the position of that handler. -/
structure CarriesOut (c : Snapshot) (written : Table Slot Binding) : Prop where
  distinct : (c.reads.map slotText).Nodup
  once : (Table.keys c.writes).Nodup
  slots : ∀ k, k ∈ Table.keys c.writes ↔ ∃ b, Table.get? written k = some b ∧ b ≠ k
  source : ∀ k i, (k, i) ∈ c.writes → ∃ b, Table.get? written k = some b ∧
    0 < i ∧ i ≤ c.reads.length ∧ (c.reads.map slotText)[i - 1]? = some (slotText b)

/-- Run over slots that hold their own handlers, the block gives each slot that was written the handler it was
given, and leaves the others, whatever the order in which it writes. -/
theorem CarriesOut.run {α : Type} {c : Snapshot} {written : Table Slot Binding} (hc : c.CarriesOut written)
    {writes : List (Slot × Nat)} (hwrites : writes.Perm c.writes) {h : Slot → Option α} {original : Slot → α}
    (hown : ∀ k b, Table.get? written k = some b → h b = some (original b)) (k : Slot) :
    Snapshot.run ⟨c.reads, writes⟩ h k = match Table.get? written k with
      | some b => some (original b)
      | none => h k := by
  have keys : (Table.keys writes).Perm (Table.keys c.writes) := hwrites.map Prod.fst
  rw [run_apply (c := ⟨c.reads, writes⟩) (keys.nodup_iff.mpr hc.once)]
  cases hget : Table.get? writes k with
  | some i =>
    obtain ⟨b, hb, hi, -, hread⟩ := hc.source k i (hwrites.mem_iff.mp (Table.mem_of_get? hget))
    rw [List.getElem?_map] at hread
    obtain ⟨b', hb', htext⟩ := Option.map_eq_some_iff.mp hread
    obtain rfl := slotText_injective htext
    have element := element_map (c := c) hi hb' h
    simp only [element, hb]
    exact hown k b' hb
  | none =>
    have unwritten : ¬ ∃ b, Table.get? written k = some b ∧ b ≠ k := by
      rw [← hc.slots, ← keys.mem_iff]
      exact Table.get?_eq_none_iff.mp hget
    cases hb : Table.get? written k with
    | none => rfl
    | some b =>
      obtain rfl : b = k := by
        by_contra hne
        exact unwritten ⟨b, hb, hne⟩
      exact hown b b hb

end Snapshot

/-! ### The block of what was written -/

theorem exists_reads (as : List (Slot × Binding)) :
    ∃ reads : List Slot, sources as = reads.map slotText ∧ (reads.map slotText).Nodup ∧
      ∀ a ∈ as, a.2 ∈ reads := by
  have texts : ∀ t ∈ sources as, t ∈ Set.range slotText := by
    intro t ht
    obtain ⟨a, -, rfl⟩ := List.mem_map.mp (Registry.mem_distinct.mp ht)
    exact ⟨a.2, rfl⟩
  obtain ⟨reads, hreads⟩ : sources as ∈ Set.range (List.map slotText) := by
    rw [Set.range_list_map]
    exact texts
  refine ⟨reads, hreads.symm, ?_, fun a ha => ?_⟩
  · rw [hreads]
    exact Registry.nodup_distinct _
  · have hmem : slotText a.2 ∈ reads.map slotText := by
      rw [hreads]
      exact Registry.mem_distinct.mpr (List.mem_map_of_mem ha)
    exact (List.mem_map_of_injective slotText_injective).mp hmem

theorem mem_assignments_iff {written : Table Slot Binding} (once : (Table.keys written).Nodup) {k : Slot}
    {b : Binding} : (k, b) ∈ assignments written ↔ Table.get? written k = some b ∧ b ≠ k := by
  rw [assignments, List.mem_filter]
  refine and_congr ⟨Table.get?_of_mem once, Table.mem_of_get?⟩ ?_
  rw [decide_eq_true_iff]
  exact ne_comm

theorem text_eq (c : Snapshot) : c.text =
    "-- mimic folding\ndo\n  local __folded = \x7b\n" ++
      join ((c.reads.map slotText).map fun h => s!"    {h},\n") ++ "  \x7d\n" ++
      join (c.writes.map fun w => s!"  {slotText w.1} = __folded[{w.2}]\n") ++ "end\n" := by
  have header : join (["-- mimic folding", "do", "  local __folded = \x7b"].map fun l => l ++ "\n") =
      "-- mimic folding\ndo\n  local __folded = \x7b\n" := by decide
  have closing : join (["  \x7d"].map fun l => l ++ "\n") = "  \x7d\n" := by decide
  have last : join (["end"].map fun l => l ++ "\n") = "end\n" := by decide
  have reads : (c.reads.map Snapshot.readLine).map (fun l => l ++ "\n") =
      (c.reads.map slotText).map fun h => s!"    {h},\n" := by
    have line : ",\n" = "," ++ "\n" := by decide
    rw [List.map_map, List.map_map]
    refine List.map_congr_left fun k _ => ?_
    show "    " ++ slotText k ++ "," ++ "\n" = "    " ++ slotText k ++ ",\n"
    rw [line, ← String.append_assoc]
  have writes : (c.writes.map Snapshot.writeLine).map (fun l => l ++ "\n") =
      c.writes.map fun w => s!"  {slotText w.1} = __folded[{w.2}]\n" := by
    have line : "]\n" = "]" ++ "\n" := by decide
    rw [List.map_map]
    refine List.map_congr_left fun w _ => ?_
    show "  " ++ slotText w.1 ++ " = __folded[" ++ toString w.2 ++ "]" ++ "\n" =
      "  " ++ slotText w.1 ++ " = __folded[" ++ toString w.2 ++ "]\n"
    rw [line, ← String.append_assoc]
  rw [Snapshot.text, Snapshot.lines, List.map_append, List.map_append, List.map_append, List.map_append,
    join_append, join_append, join_append, join_append, header, closing, last, reads, writes]

/-- The block that reads some handlers and writes each slot from the position of its handler. -/
def positioned (reads : List Slot) (as : List (Slot × Binding)) : Snapshot :=
  ⟨reads, as.map fun a => (a.1, (reads.map slotText).idxOf (slotText a.2) + 1)⟩

/-- Where each handler that is to be written is read, and once only, the block carries out what was written. -/
theorem carriesOut_positioned {written : Table Slot Binding} (once : (Table.keys written).Nodup)
    {reads : List Slot} (distinct : (reads.map slotText).Nodup)
    (hmem : ∀ a ∈ assignments written, a.2 ∈ reads) :
    (positioned reads (assignments written)).CarriesOut written := by
  have keys : Table.keys (positioned reads (assignments written)).writes = Table.keys (assignments written) :=
    List.map_map ..
  refine ⟨distinct, ?_, fun k => ?_, fun k i hk => ?_⟩
  · rw [keys]
    exact once.sublist (List.filter_sublist.map _)
  · rw [keys, Table.keys, List.mem_map]
    constructor
    · rintro ⟨⟨k, b⟩, ha, rfl⟩
      exact ⟨b, (mem_assignments_iff once).mp ha⟩
    · rintro ⟨b, hb⟩
      exact ⟨(k, b), (mem_assignments_iff once).mpr hb, rfl⟩
  · obtain ⟨⟨k, b⟩, ha, heq⟩ := List.mem_map.mp hk
    obtain ⟨rfl, rfl⟩ := Prod.mk.inj heq
    have hread : slotText b ∈ reads.map slotText := List.mem_map_of_mem (hmem _ ha)
    refine ⟨b, ((mem_assignments_iff once).mp ha).1, Nat.succ_pos _, ?_, ?_⟩
    · have := List.idxOf_lt_length_iff.mpr hread
      rw [List.length_map] at this
      exact this
    · rw [Nat.add_sub_cancel]
      exact List.getElem?_idxOf hread

theorem text_positioned {written : Table Slot Binding} {reads : List Slot}
    (htexts : sources (assignments written) = reads.map slotText) :
    text written = if (positioned reads (assignments written)).writes = [] then "" else
      (positioned reads (assignments written)).text := by
  have lines : (assignments written).map (assignmentLine (sources (assignments written))) =
      (positioned reads (assignments written)).writes.map
        fun w => s!"  {slotText w.1} = __folded[{w.2}]\n" := by
    rw [htexts, positioned, List.map_map]
    rfl
  have empty : (positioned reads (assignments written)).writes = [] ↔ (assignments written).isEmpty = true := by
    rw [positioned, List.map_eq_nil_iff, List.isEmpty_iff]
  rw [text_eq, Mimic.text]
  dsimp only
  rw [lines, htexts]
  simp only [empty]
  rfl

/-- The text of what was written is that of a block that carries it out; where nothing is to be carried out
there is none. -/
theorem exists_snapshot {written : Table Slot Binding} (once : (Table.keys written).Nodup) :
    ∃ c : Snapshot, c.CarriesOut written ∧ text written = if c.writes = [] then "" else c.text := by
  obtain ⟨reads, htexts, distinct, hmem⟩ := exists_reads (assignments written)
  exact ⟨positioned reads (assignments written), carriesOut_positioned once distinct hmem,
    text_positioned htexts⟩

/-- Every handler in a slot and every one that was written is one that a script defines. -/
structure Known (r : Registry) (s : Slots) : Prop where
  rows : ∀ x, ∀ e ∈ s.row x, r.defines e.2.1 e.2.2 = true
  written : ∀ a ∈ s.written, r.defines a.2.1 a.2.2 = true

namespace Known

variable {r : Registry} {cs : List Candidate} {s : Slots}

theorem initial (r : Registry) : Known r (Slots.initial r) where
  rows := by
    intro x e he
    rw [Slots.row_initial] at he
    obtain ⟨event, hevent, rfl⟩ := List.mem_map.mp he
    rw [Registry.defines]
    simpa using hevent
  written := fun _ h => nomatch h

theorem set (s : Slots) (x y : String) (b : Binding) (hs : Known r s) (hb : r.defines b.1 b.2 = true) :
    Known r (s.set x y b) := by
  rw [Slots.set]
  split_ifs
  · exact hs
  · refine ⟨fun x' e he => ?_, fun a ha => ?_⟩
    · rw [Slots.row_put] at he
      split_ifs at he with hx
      · rcases Table.mem_of_mem_put he with ⟨-, hvalue⟩ | he
        · rw [hvalue]
          exact hb
        · exact hs.rows x e he
      · exact hs.rows x' e he
    · rcases Table.mem_of_mem_put ha with ⟨-, hvalue⟩ | ha
      · rw [hvalue]
        exact hb
      · exact hs.written a ha

theorem iterate (r : Registry) (cs : List Candidate) (n : Nat) :
    Known r ((round r cs)^[n] (Slots.initial r)) := by
  induction n with
  | zero => exact .initial r
  | succ n ih =>
    rw [Function.iterate_succ_apply']
    exact round_keeps_held (Q := fun b => r.defines b.1 b.2 = true) (fun _ hs => hs.rows) set ih

end Known

/-- Whatever the scripts and the candidates are, and after any number of rounds, the text of folding is that of
one block, or there is none where every slot that was written holds its own handler again. Run over slots in
which every event that a script defines has its own handler, the block gives each slot that was written the
handler that folding left in it, and leaves the others as they were. It reads each handler once and writes each
slot once, from the position of its handler, and in any order of the writing it does the same. The text is that
of the printer: names stand in quotes, where a carriage return is left as it is and no Lua reads it. -/
theorem fold_carries_out (r : Registry) (cs : List Candidate) (n : Nat) :
    let written := (rounds r cs n (Slots.initial r)).written
    (fold r cs n = "" ↔ ∀ k b, Table.get? written k = some b → b = k) ∧
    ∃ c : Snapshot, fold r cs n = (if c.writes = [] then "" else c.text) ∧
      (∀ c' : Snapshot, c'.text = c.text → c' = c) ∧ c.CarriesOut written ∧
      ∀ (writes : List (Slot × Nat)) (α : Type) (original : Slot → α) (h : Slot → Option α),
        writes.Perm c.writes → (∀ k, r.defines k.1 k.2 = true → h k = some (original k)) →
        ∀ k, Snapshot.run ⟨c.reads, writes⟩ h k = match Table.get? written k with
          | some b => some (original b)
          | none => h k := by
  intro written
  have replayed : written = ((round r cs)^[n] (Slots.initial r)).written :=
    congrArg Slots.written ((Replayed.initial r).rounds_eq_iterate n)
  have once : (Table.keys written).Nodup := by
    rw [replayed]
    exact (Replayed.iterate r cs n).once
  have known : ∀ k b, Table.get? written k = some b → r.defines b.1 b.2 = true := by
    rw [replayed]
    exact fun k b hb => (Known.iterate r cs n).written _ (Table.mem_of_get? hb)
  obtain ⟨c, hc, htext⟩ := exists_snapshot once
  refine ⟨?_, c, htext, fun c' h => Snapshot.text_injective h, hc,
    fun writes α original h hwrites hown k => hc.run hwrites (fun k b hb => hown b (known k b hb)) k⟩
  have empty : fold r cs n = "" ↔ c.writes = [] := by
    rw [fold, htext]
    split_ifs with hwrites
    · exact iff_of_true rfl hwrites
    · exact iff_of_false c.text_ne_empty hwrites
  rw [empty, List.eq_nil_iff_forall_not_mem]
  constructor
  · intro hnone k b hb
    by_contra hne
    obtain ⟨w, hw, -⟩ := List.mem_map.mp ((hc.slots k).mpr ⟨b, hb, hne⟩)
    exact hnone w hw
  · intro hown w hw
    obtain ⟨b, hb, hne⟩ := (hc.slots w.1).mp (List.mem_map_of_mem hw)
    exact hne (hown _ _ hb)

/-- Three tiles that mimic each other in a ring. The second round gives two of them their own handlers back. -/
theorem fold_carries_out_ring :
    let r : Registry := ⟨[((.tile, 0), "a"), ((.tile, 1), "b"), ((.tile, 2), "c")],
      [("a", ["load"]), ("b", ["load"]), ("c", ["load", "talk"])]⟩
    let cs : List Candidate := [⟨"a", "load", 1⟩, ⟨"b", "load", 2⟩, ⟨"c", "load", 0⟩]
    ∃ c : Snapshot, fold r cs 2 = c.text ∧ c.CarriesOut (rounds r cs 2 (Slots.initial r)).written ∧
      c.run (defined r) ("a", "load") = some ("c", "load") ∧
      c.run (defined r) ("b", "load") = some ("b", "load") ∧
      c.run (defined r) ("c", "talk") = some ("c", "talk") ∧ c.run (defined r) ("d", "load") = none := by
  intro r cs
  obtain ⟨empty, c, htext, -, hc, run⟩ := fold_carries_out r cs 2
  have moved : Table.get? (rounds r cs 2 (Slots.initial r)).written ("a", "load") = some ("c", "load") := by
    decide
  have restored : Table.get? (rounds r cs 2 (Slots.initial r)).written ("b", "load") = some ("b", "load") := by
    decide
  have nonempty : c.writes ≠ [] := by
    intro hwrites
    rw [if_pos hwrites] at htext
    exact absurd (empty.mp htext _ _ moved) (by decide)
  have run := run c.writes Slot id (defined r) (List.Perm.refl _) fun k hk => if_pos hk
  refine ⟨c, by rw [htext, if_neg nonempty], hc, ?_, ?_, ?_, ?_⟩
  · exact (run _).trans (by rw [moved]; rfl)
  · exact (run _).trans (by rw [restored]; rfl)
  · exact (run _).trans (by decide)
  · exact (run _).trans (by decide)

end Mimic
end GameScript
