import GameScript.Proofs.Mimic.Folding

/-! How many rounds folding takes. What a candidate puts into a slot comes from a slot of the tile's script,
so a slot at the start of a chain of hops is settled when the slot behind it is. Each round settles the slots
of chains that are one hop longer, and a round over slots that are all settled changes nothing. -/

namespace GameScript

namespace Table

variable {κ ν : Type} [DecidableEq κ]

theorem get?_filter_keys (p : κ → Bool) (t : Table κ ν) (k : κ) :
    get? (t.filter fun e => p e.1) k = if p k then get? t k else none := by
  induction t with
  | nil => simp [get?]
  | cons e t ih =>
    obtain ⟨k', v⟩ := e
    by_cases hk : k' = k
    · subst hk
      cases hp : p k' <;> simp [hp, get?, ih]
    · cases hp : p k' <;> simp [hp, get?, hk, ih]

end Table

namespace Registry

def Distinct (r : Registry) : Prop := ∀ entry ∈ r.events, entry.2.Nodup

theorem distinct_of_build {g : Game} {r : Registry} (h : (build g).result = .ok r) : r.Distinct := by
  rw [eq_ofNamed h]
  intro entry hentry
  obtain ⟨p, -, rfl⟩ := List.mem_map.mp hentry
  exact nodup_distinct _

end Registry

namespace Mimic

/-- A candidate hands its script's slot of an event on to a script: a candidate for the event itself, or one
for every event where its script does not define the event. -/
structure Feeds (r : Registry) (c : Candidate) (e t : String) : Prop where
  tile : r.nameOf? (.tile, c.tile) = some t
  other : t ≠ c.source
  event : (c.event = e ∧ e ≠ Registry.wildcard) ∨
    (c.event = Registry.wildcard ∧ r.defines c.source e = false)

/-- For an event, one of the candidates hands the slot of a script on to another script. -/
def Leads (r : Registry) (cs : List Candidate) (e s t : String) : Prop :=
  ∃ c ∈ cs, c.source = s ∧ Feeds r c e t

/-- What a candidate puts into its script's slot of an event, if anything. -/
def incoming (s : Slots) (c : Candidate) (e t : String) : Option Binding :=
  if c.event = Registry.wildcard then s.get? t e
  else (s.get? t e).or (s.get? t Registry.wildcard)

/-- Applying the candidate leaves the slot as it is. -/
def Settled (s : Slots) (c : Candidate) (e t : String) : Prop :=
  ∀ b, incoming s c e t = some b → s.get? c.source e = some b

/-! ### One candidate -/

def Slots.Tidy (s : Slots) : Prop := ∀ x, (Table.keys (s.row x)).Nodup

variable {r : Registry} {cs : List Candidate} {s : Slots} {c c' : Candidate} {e t t' x y : String}

theorem Slots.get?_set (s : Slots) (x y : String) (b : Binding) (x' y' : String) :
    (s.set x y b).get? x' y' = if (x, y) = (x', y') then some b else s.get? x' y' := by
  rw [Slots.set]
  split_ifs with hb h h
  · cases h
    exact hb
  · rfl
  · rw [Slots.get?_put, if_pos h]
  · rw [Slots.get?_put, if_neg h]

theorem Slots.Tidy.initial (hr : r.Distinct) : (Slots.initial r).Tidy := by
  intro x
  have keys : Table.keys ((Slots.initial r).row x) = (Table.get? r.events x).getD [] := by
    rw [Slots.row_initial, Table.keys, List.map_map]
    exact List.map_id _
  rw [keys]
  cases h : Table.get? r.events x with
  | none => exact List.nodup_nil
  | some events => exact hr _ (Table.mem_of_get? h)

theorem Slots.Tidy.set (hs : s.Tidy) (x y : String) (b : Binding) : (s.set x y b).Tidy := by
  intro x'
  rw [Slots.set]
  split_ifs
  · exact hs x'
  · rw [Slots.row_put]
    split_ifs
    · exact Table.nodup_keys_put (hs x) y b
    · exact hs x'

theorem Slots.Tidy.apply (hs : s.Tidy) (c : Candidate) : (apply r s c).Tidy :=
  apply_keeps (fun _ x y b hs => hs.set x y b) r c hs

theorem get?_setAll : (entries : Table String Binding) → (Table.keys entries).Nodup → (s : Slots) →
    (entries.foldl (fun s e => s.set x e.1 e.2) s).get? x y =
      (Table.get? entries y).or (s.get? x y)
  | [], _, _ => rfl
  | (k, b) :: entries, h, s => by
    obtain ⟨fresh, h⟩ := List.nodup_cons.mp h
    rw [List.foldl_cons, get?_setAll entries h, Slots.get?_set, Table.get?]
    by_cases hk : k = y
    · subst hk
      rw [Table.get?_eq_none_iff.mpr fresh, if_pos rfl, if_pos rfl]
      rfl
    · rw [if_neg fun h => hk (Prod.mk.inj h).2, if_neg hk]

theorem get?_setAll_of_ne (hx : x ≠ t) : (entries : Table String Binding) → (s : Slots) →
    (entries.foldl (fun s e => s.set x e.1 e.2) s).get? t y = s.get? t y
  | [], _ => rfl
  | (k, b) :: entries, s => by
    rw [List.foldl_cons, get?_setAll_of_ne hx entries, Slots.get?_set,
      if_neg fun h => hx (Prod.mk.inj h).1]

theorem setAll_eq_self : (entries : Table String Binding) →
    (∀ e ∈ entries, s.get? x e.1 = some e.2) →
      entries.foldl (fun s e => s.set x e.1 e.2) s = s
  | [], _ => rfl
  | (k, b) :: entries, h => by
    obtain ⟨hb, h⟩ := List.forall_mem_cons.mp h
    rw [List.foldl_cons, Slots.set, if_pos hb]
    exact setAll_eq_self entries h

theorem get?_inherit (hs : s.Tidy) : (inherit r s x t).get? x y =
    if r.defines x y then s.get? x y else (s.get? t y).or (s.get? x y) := by
  have nodup : (Table.keys ((s.row t).filter fun e => !r.defines x e.1)).Nodup :=
    (hs t).sublist (List.filter_sublist.map _)
  rw [inherit, get?_setAll _ nodup, Table.get?_filter_keys fun e => !r.defines x e]
  cases r.defines x y <;> rfl

/-- A candidate puts into a slot that it feeds what comes in, if anything. -/
theorem get?_apply_of_feeds (hs : s.Tidy) (h : Feeds r c e t) :
    (apply r s c).get? c.source e = (incoming s c e t).or (s.get? c.source e) := by
  rw [apply, h.tile, incoming]
  simp only [if_neg h.other]
  rcases h.event with ⟨hevent, hne⟩ | ⟨hevent, free⟩
  · subst hevent
    rw [if_neg hne, if_neg hne]
    cases (s.get? t c.event).or (s.get? t Registry.wildcard) with
    | none => rfl
    | some b => simp [Slots.get?_set]
  · rw [if_pos hevent, if_pos hevent, get?_inherit hs, free]
    rfl

theorem get?_apply_of_not_feeds (hs : s.Tidy) (h : c.source = x → ∀ t, ¬ Feeds r c e t) :
    (apply r s c).get? x e = s.get? x e := by
  rw [apply]
  split
  · rfl
  · next t ht =>
    split_ifs with hself hwildcard
    · rfl
    · by_cases hx : c.source = x
      · subst hx
        rw [get?_inherit hs, if_pos]
        by_contra free
        exact h rfl t ⟨ht, hself, .inr ⟨hwildcard, eq_false_of_ne_true free⟩⟩
      · exact get?_setAll_of_ne hx _ s
    · split
      · rw [Slots.get?_set, if_neg]
        intro heq
        obtain ⟨hx, he⟩ := Prod.mk.inj heq
        exact h hx t ⟨ht, hself, .inl ⟨he, he ▸ hwildcard⟩⟩
      · rfl

theorem apply_eq_self (hs : s.Tidy) (h : ∀ e t, Feeds r c e t → Settled s c e t) :
    apply r s c = s := by
  rw [apply]
  split
  · rfl
  · next t ht =>
    split_ifs with hself hwildcard
    · rfl
    · refine setAll_eq_self _ fun entry hentry => ?_
      obtain ⟨hrow, hfree⟩ := List.mem_filter.mp hentry
      have free : r.defines c.source entry.1 = false := by simpa using hfree
      refine h entry.1 t ⟨ht, hself, .inr ⟨hwildcard, free⟩⟩ entry.2 ?_
      rw [incoming, if_pos hwildcard]
      exact Table.get?_of_mem (hs t) hrow
    · split
      · next b hb =>
        have settled := h c.event t ⟨ht, hself, .inl ⟨rfl, hwildcard⟩⟩ b
        rw [incoming, if_neg hwildcard] at settled
        rw [Slots.set, if_pos (settled hb)]
      · rfl

/-! ### Rounds -/

section

variable (r cs)

/-- No chain of hops from a script is longer than a number. -/
def Within (e : String) : Nat → String → Prop
  | 0, s => ∀ t, ¬ Leads r cs e s t
  | n + 1, s => ∀ t, Leads r cs e s t → Within e n t

/-- The chains of some length are settled, and those that are one hop longer are as far as they start at some
of the candidates. -/
structure Advanced (n : Nat) (done : List Candidate) (s : Slots) : Prop where
  tidy : s.Tidy
  settled : ∀ c ∈ cs, ∀ e t, Feeds r c e t →
    Within r cs e n c.source ∨ (c ∈ done ∧ Within r cs e (n + 1) c.source) → Settled s c e t

end

theorem Within.succ {n : Nat} (h : Within r cs e n x) : Within r cs e (n + 1) x := by
  induction n generalizing x with
  | zero => exact fun t ht => absurd ht (h t)
  | succ n ih => exact fun t ht => ih (h t ht)

theorem exists_chain_of_not_within {n : Nat} (h : ¬ Within r cs e n x) :
    ∃ path : List String, path.length = n + 1 ∧ (x :: path).IsChain (Leads r cs e) := by
  induction n generalizing x with
  | zero =>
    obtain ⟨t, ht⟩ := not_forall.mp h
    exact ⟨[t], rfl, by simpa using not_not.mp ht⟩
  | succ n ih =>
    obtain ⟨t, ht⟩ := not_forall.mp h
    obtain ⟨hleads, ht⟩ := Classical.not_imp.mp ht
    obtain ⟨path, hlength, hpath⟩ := ih ht
    exact ⟨t :: path, by rw [List.length_cons, hlength], .cons_cons hleads hpath⟩

section

variable {n : Nat} {done : List Candidate}
  (distinct : (cs.map fun c => (c.source, c.event)).Nodup)
  (own : ∀ c ∈ cs, r.defines c.source c.event = true)

include distinct own in
/-- No slot is fed by two candidates. -/
theorem eq_of_feeds (hc : c ∈ cs) (hc' : c' ∈ cs) (hsource : c.source = c'.source)
    (h : Feeds r c e t) (h' : Feeds r c' e t') : c = c' := by
  have defined : ∀ c ∈ cs, c.event = e → r.defines c.source e = true :=
    fun c hc he => he ▸ own c hc
  refine List.inj_on_of_nodup_map distinct hc hc' (Prod.ext hsource ?_)
  rcases h.event with ⟨hevent, -⟩ | ⟨hevent, free⟩ <;>
    rcases h'.event with ⟨hevent', -⟩ | ⟨hevent', free'⟩
  · exact hevent.trans hevent'.symm
  · rw [← hsource, defined c hc hevent] at free'
    cases free'
  · rw [hsource, defined c' hc' hevent'] at free
    cases free
  · exact hevent.trans hevent'.symm

include own in
/-- The slots for every event are never written. -/
theorem get?_apply_wildcard (hs : s.Tidy) (hc : c ∈ cs) :
    (apply r s c).get? x Registry.wildcard = s.get? x Registry.wildcard := by
  refine get?_apply_of_not_feeds hs fun _ t h => ?_
  rcases h.event with ⟨-, hne⟩ | ⟨hevent, free⟩
  · exact hne rfl
  · rw [← hevent, own c hc] at free
    cases free

theorem Advanced.get?_apply (hs : Advanced r cs n done s) (hc : c ∈ cs)
    (hx : Within r cs e n x) : (apply r s c).get? x e = s.get? x e := by
  by_cases h : c.source = x ∧ ∃ t, Feeds r c e t
  · obtain ⟨rfl, t, h⟩ := h
    rw [get?_apply_of_feeds hs.tidy h]
    cases hb : incoming s c e t with
    | none => rfl
    | some b => exact (hs.settled c hc e t h (.inl hx) b hb).symm
  · exact get?_apply_of_not_feeds hs.tidy fun hx t ht => h ⟨hx, t, ht⟩

include own in
theorem Advanced.incoming_apply (hs : Advanced r cs n done s) (hc : c ∈ cs)
    (ht : Within r cs e n t) : incoming (apply r s c) c' e t = incoming s c' e t := by
  rw [incoming, incoming, hs.get?_apply hc ht, get?_apply_wildcard own hs.tidy hc]

include distinct own

theorem Advanced.apply (hs : Advanced r cs n done s) (hc : c ∈ cs) :
    Advanced r cs n (done ++ [c]) (apply r s c) := by
  refine ⟨hs.tidy.apply c, fun c' hc' e t h hwithin b hb => ?_⟩
  have longer : Within r cs e (n + 1) c'.source := by
    rcases hwithin with hwithin | ⟨-, hwithin⟩
    · exact hwithin.succ
    · exact hwithin
  rw [hs.incoming_apply own hc (longer t ⟨c', hc', rfl, h⟩)] at hb
  by_cases heq : c' = c
  · subst heq
    rw [get?_apply_of_feeds hs.tidy h, hb]
    rfl
  · -- no other candidate writes the slot
    rw [get?_apply_of_not_feeds hs.tidy fun hsource t' h' =>
      heq (eq_of_feeds distinct own hc' hc hsource.symm h h')]
    refine hs.settled c' hc' e t h (hwithin.imp_right fun ⟨hmem, hwithin⟩ => ⟨?_, hwithin⟩) b hb
    simpa [heq] using hmem

/-- A round settles the chains that are one hop longer. -/
theorem Advanced.round (hs : Advanced r cs n [] s) : Advanced r cs (n + 1) [] (round r cs s) := by
  have applied : ∀ (rest done : List Candidate) (s : Slots), rest ⊆ cs →
      Advanced r cs n done s → Advanced r cs n (done ++ rest) (rest.foldl (Mimic.apply r) s) := by
    intro rest
    induction rest with
    | nil => exact fun done s _ hs => by rwa [List.append_nil]
    | cons c rest ih =>
      intro done s hsub hs
      obtain ⟨hc, hsub⟩ := List.cons_subset.mp hsub
      have := ih (done ++ [c]) _ hsub (hs.apply distinct own hc)
      rwa [List.append_assoc] at this
  have after := applied cs [] s (List.Subset.refl cs) hs
  refine ⟨after.tidy, fun c hc e t h hwithin => after.settled c hc e t h (.inr ⟨hc, ?_⟩)⟩
  rcases hwithin with hwithin | ⟨hmem, -⟩
  · exact hwithin
  · cases hmem

theorem Advanced.iterate (hr : r.Distinct) (n : Nat) :
    Advanced r cs n [] ((Mimic.round r cs)^[n] (Slots.initial r)) := by
  induction n with
  | zero =>
    refine ⟨.initial hr, fun c hc e t h hwithin => ?_⟩
    rcases hwithin with hwithin | ⟨hmem, -⟩
    · exact absurd ⟨c, hc, rfl, h⟩ (hwithin t)
    · cases hmem
  | succ n ih =>
    rw [Function.iterate_succ_apply']
    exact ih.round distinct own

omit distinct own in
theorem Advanced.round_eq_self (hs : Advanced r cs n [] s)
    (hwithin : ∀ e x, Within r cs e n x) : Mimic.round r cs s = s := by
  have applied : ∀ cs' ⊆ cs, cs'.foldl (Mimic.apply r) s = s := by
    intro cs'
    induction cs' with
    | nil => exact fun _ => rfl
    | cons c cs' ih =>
      intro hsub
      obtain ⟨hc, hsub⟩ := List.cons_subset.mp hsub
      rw [List.foldl_cons, apply_eq_self hs.tidy fun e t h =>
        hs.settled c hc e t h (.inl (hwithin e c.source)), ih hsub]
  exact applied cs (List.Subset.refl cs)

end

/-- Rounds of folding stop changing anything where one more round does. -/
theorem rounds_add (n m : Nat) (h : round r cs ((round r cs)^[n] s) = (round r cs)^[n] s) :
    rounds r cs (n + m) s = rounds r cs n s := by
  induction n generalizing s with
  | zero =>
    cases m with
    | zero => rfl
    | succ m =>
      have h : round r cs s = s := h
      rw [Nat.zero_add, rounds, rounds]
      simp only [h, if_true]
  | succ n ih =>
    rw [Nat.succ_add, rounds, rounds]
    split_ifs
    · rfl
    · exact ih h

/-- Where no chain of hops is longer than a number, folding in more rounds than that gives the same text,
whatever the order of the candidates. Registries list every event of a script once. -/
theorem fold_eq_of_chains :
    (∀ (g : Game) (r : Registry), (Registry.build g).result = .ok r → r.Distinct) ∧
    ∀ (r : Registry) (cs : List Candidate) (k : Nat), r.Distinct →
      (cs.map fun c => (c.source, c.event)).Nodup →
      (∀ c ∈ cs, r.defines c.source c.event = true) →
      (∀ (e : String) (path : List String), path.IsChain (Leads r cs e) → path.length ≤ k + 1) →
      ∀ n ≥ k, fold r cs n = fold r cs k := by
  refine ⟨fun g r => Registry.distinct_of_build, fun r cs k hr distinct own chains n hn => ?_⟩
  have within : ∀ e x, Within r cs e k x := by
    intro e x
    by_contra h
    obtain ⟨path, hlength, hpath⟩ := exists_chain_of_not_within h
    have := chains e _ hpath
    rw [List.length_cons, hlength] at this
    omega
  have settled := (Advanced.iterate distinct own hr k).round_eq_self within
  obtain ⟨m, rfl⟩ := Nat.exists_eq_add_of_le hn
  rw [fold, fold, rounds_add k m settled]

/-- Where candidates only lead to scripts of a lower rank, the rank bounds the chains. -/
theorem length_le_of_rank {rank : String → Nat} (h : ∀ s t, Leads r cs e s t → rank t < rank s) :
    {x : String} → {path : List String} → (x :: path).IsChain (Leads r cs e) → path.length ≤ rank x
  | _, [], _ => Nat.zero_le _
  | x, y :: path, hpath => by
    obtain ⟨hxy, hpath⟩ := List.isChain_cons_cons.mp hpath
    have lower := h x y hxy
    have rest := length_le_of_rank h hpath
    rw [List.length_cons]
    omega

/-- A chain of three hops, the first one over the slot for every event, with its candidates in the order in
which they settle last. Two rounds are too few for it. -/
theorem fold_eq_of_chains_three :
    let r : Registry := ⟨[((.tile, 0), "a"), ((.tile, 1), "b"), ((.tile, 2), "c"), ((.tile, 3), "d")],
      [("a", ["any"]), ("b", ["load"]), ("c", ["load"]), ("d", ["load"])]⟩
    let cs : List Candidate := [⟨"a", "any", 1⟩, ⟨"b", "load", 2⟩, ⟨"c", "load", 3⟩]
    r.Distinct ∧ (cs.map fun c => (c.source, c.event)).Nodup ∧
      (∀ c ∈ cs, r.defines c.source c.event = true) ∧
      (∀ (e : String) (path : List String), path.IsChain (Leads r cs e) → path.length ≤ 3 + 1) ∧
      fold r cs 2 ≠ fold r cs 3 ∧ ∀ n ≥ 3, fold r cs n = fold r cs 3 := by
  intro r cs
  let rank : String → Nat := fun x =>
    if x = "a" then 3 else if x = "b" then 2 else if x = "c" then 1 else 0
  have hr : r.Distinct := by
    unfold Registry.Distinct
    decide
  have lower : ∀ e s t, Leads r cs e s t → rank t < rank s := by
    rintro e s t ⟨c, hc, rfl, h⟩
    have htile := h.tile
    simp only [cs, List.mem_cons, List.not_mem_nil, or_false] at hc
    rcases hc with rfl | rfl | rfl <;> cases htile <;> decide
  have chains : ∀ (e : String) (path : List String), path.IsChain (Leads r cs e) →
      path.length ≤ 3 + 1 := by
    intro e path hpath
    cases path with
    | nil => exact Nat.zero_le _
    | cons x path =>
      have low : rank x ≤ 3 := by
        simp only [rank]
        split_ifs <;> omega
      have := length_le_of_rank (lower e) hpath
      rw [List.length_cons]
      omega
  have distinct : (cs.map fun c => (c.source, c.event)).Nodup := by decide
  have own : ∀ c ∈ cs, r.defines c.source c.event = true := by decide
  exact ⟨hr, distinct, own, chains, by decide +kernel,
    fold_eq_of_chains.2 r cs 3 hr distinct own chains⟩

end Mimic
end GameScript
