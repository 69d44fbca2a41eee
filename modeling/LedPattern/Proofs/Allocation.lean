import LedPattern.Proofs.Emission

/-!
# Allocation of slots

Slots get their symbols one after another, whatever the owners are called. `Slot.Search` is the
search for a symbol as a loop without a bound: a symbol that is taken gives way to the one with the
next number. It ends at the first candidate that is free (`search_of_first`), and there is one,
since the candidates of an owner all differ and only finitely many symbols are taken.

`Slot.Chosen` says all that is known of a symbol when it is handed out. One call gives such a
symbol (`chosen_freeSymbol`), and a run of calls only adds slots at the end, so that this stays
true of every slot with respect to those before it (`chosen_of_allocateAll`). The symbols differ
because each is free when it is chosen.
-/

namespace LedPattern

namespace Slot

/-- The symbol of an owner as long as it is free. -/
def base (owner : String) : String := "state_" ++ Text.sanitize owner

/-- The symbol of an owner with a number behind it. -/
def numbered (owner : String) (n : Nat) : String := base owner ++ "_" ++ natText n

/-- The search for a symbol, from `symbol` on and with `n` as the next number, comes to its end
after `rounds` rounds at the symbol `found`. -/
inductive Search (taken : List String) (owner : String) : String → Nat → Nat → String → Prop where
  | free {symbol : String} {n : Nat} (h : symbol ∉ taken) : Search taken owner symbol n 0 symbol
  | next {symbol found : String} {n rounds : Nat} (h : symbol ∈ taken)
      (rest : Search taken owner (numbered owner n) (n + 1) rounds found) :
      Search taken owner symbol n (rounds + 1) found

/-- The first candidate is the plain symbol. -/
theorem candidate_zero (owner : String) : candidate owner 0 = base owner := rfl

/-- The other candidates are those with a number from two on. -/
theorem candidate_succ (owner : String) (k : Nat) :
    candidate owner (k + 1) = numbered owner (k + 2) := rfl

/-- The search goes through the candidates and ends at the first that is free. -/
theorem search_of_first {taken : List String} {owner : String} {rounds i : Nat}
    (hfree : candidate owner (i + rounds) ∉ taken)
    (htaken : ∀ j, i ≤ j → j < i + rounds → candidate owner j ∈ taken) :
    Search taken owner (candidate owner i) (i + 2) rounds (candidate owner (i + rounds)) := by
  induction rounds generalizing i with
  | zero => exact .free hfree
  | succ rounds ih =>
    refine .next (htaken i (by omega) (by omega)) ?_
    have hnext : i + (rounds + 1) = i + 1 + rounds := by omega
    rw [hnext] at hfree htaken ⊢
    rw [← candidate_succ]
    exact ih hfree fun j hj => htaken j (by omega)

/-- What is known of the symbol of a new slot. -/
structure Chosen (taken : List String) (owner symbol : String) : Prop where
  /-- The search for the symbol takes at most one round for each symbol that is taken. -/
  search : ∃ rounds ≤ taken.length, Search taken owner (base owner) 2 rounds symbol
  /-- No other slot has the symbol. -/
  free : symbol ∉ taken
  /-- The symbol is the plain one, or that is taken and it has the least number that is free. -/
  least : symbol = base owner ∨ base owner ∈ taken ∧
    ∃ n, 2 ≤ n ∧ symbol = numbered owner n ∧ ∀ m, 2 ≤ m → m < n → numbered owner m ∈ taken
  /-- The symbol is an identifier, and no keyword. -/
  isName : Lexer.isName symbol = true
  /-- The symbol starts as those of all slots do. -/
  stem : "state_".toList <+: symbol.toList

/-- A symbol starts as all symbols of slots do. -/
theorem stem_candidate (owner : String) (k : Nat) :
    "state_".toList <+: (candidate owner k).toList := by
  unfold candidate
  dsimp only
  split
  all_goals
    simp only [String.toList_append, List.append_assoc]
    exact List.prefix_append _ _

/-- The symbol that is handed out is chosen well. -/
theorem chosen_freeSymbol (taken : List String) (owner : String) :
    Chosen taken owner (freeSymbol taken owner) := by
  obtain ⟨k, hk, hfree, htaken⟩ := freeSymbol_spec taken owner
  rw [hk]
  refine ⟨⟨k, le_length_of_taken htaken, ?_⟩, hfree, ?_, (isName_candidate owner k).1,
    stem_candidate owner k⟩
  · have hsearch : Search taken owner (candidate owner 0) (0 + 2) k (candidate owner (0 + k)) :=
      search_of_first (by rwa [Nat.zero_add]) fun j _ hj => htaken j (by omega)
    rwa [candidate_zero, Nat.zero_add, Nat.zero_add] at hsearch
  · cases k with
    | zero => exact .inl rfl
    | succ k =>
      refine .inr ⟨htaken 0 (by omega), k + 2, by omega, candidate_succ owner k, fun m hm hlt => ?_⟩
      obtain ⟨j, rfl⟩ := Nat.exists_eq_add_of_le' hm
      exact htaken (j + 1) (by omega)

/-! ## Runs of calls -/

/-- The slots after calls for the given owners and lengths, one after another. -/
def allocateAll (requests : List (String × Nat)) : List Slot :=
  requests.foldl (fun slots request => allocate slots request.1 request.2) []

/-- A further call adds its slot at the end. -/
theorem allocateAll_concat (requests : List (String × Nat)) (request : String × Nat) :
    allocateAll (requests ++ [request]) = allocateAll requests ++
      [⟨freeSymbol ((allocateAll requests).map Slot.symbol) request.1, request.1, request.2⟩] := by
  simp only [allocateAll, List.foldl_append, List.foldl_cons, List.foldl_nil, allocate]

/-- Later calls leave the slots of earlier ones as they are. -/
theorem allocateAll_prefix (requests later : List (String × Nat)) :
    allocateAll requests <+: allocateAll (requests ++ later) := by
  induction later using List.reverseRecOn with
  | nil => simp
  | append_singleton later request ih =>
    rw [← List.append_assoc, allocateAll_concat]
    exact ih.trans (List.prefix_append _ _)

/-- The slots are as many as the calls, in the same order. -/
theorem map_allocateAll (requests : List (String × Nat)) :
    (allocateAll requests).map (fun s => (s.owner, s.len)) = requests := by
  induction requests using List.reverseRecOn with
  | nil => rfl
  | append_singleton requests request ih =>
    rw [allocateAll_concat, List.map_append, ih]
    rfl

/-- The symbol of each slot is chosen well with respect to the slots before it. -/
theorem chosen_of_allocateAll {requests : List (String × Nat)} {before after : List Slot}
    {slot : Slot} (h : allocateAll requests = before ++ slot :: after) :
    Chosen (before.map Slot.symbol) slot.owner slot.symbol := by
  induction requests using List.reverseRecOn generalizing after with
  | nil => simp [allocateAll] at h
  | append_singleton requests request ih =>
    rw [allocateAll_concat] at h
    -- Either the slot is the one that the last call adds, or it was there before.
    rcases List.eq_nil_or_concat after with rfl | ⟨after, last, rfl⟩
    · obtain ⟨hbefore, hslot⟩ := List.append_inj' h rfl
      obtain rfl := List.singleton_inj.1 hslot
      rw [← hbefore]
      exact chosen_freeSymbol _ _
    · rw [List.concat_eq_append, ← List.cons_append, ← List.append_assoc] at h
      exact ih (List.append_inj' h rfl).1

/-- The symbols of all slots differ. -/
theorem nodup_allocateAll (requests : List (String × Nat)) :
    ((allocateAll requests).map Slot.symbol).Nodup := by
  induction requests using List.reverseRecOn with
  | nil => exact List.nodup_nil
  | append_singleton requests request ih =>
    rw [allocateAll_concat, List.map_append, List.map_singleton, ← List.concat_eq_append]
    exact ih.concat (chosen_freeSymbol _ request.1).free

end Slot

/-- Slots never share a symbol. After any calls for any owners and lengths, the symbols of all
slots are pairwise different, and the slots have the owners and lengths of the calls in order. What
earlier calls gave out stays as it is when later ones follow. Each symbol is an identifier that
starts with `state_`. Its search came to an end, at the plain symbol of its owner or at the one with
the least number from two on that was free among the slots before it. -/
theorem allocation_keeps_apart (requests : List (String × Nat)) :
    ((Slot.allocateAll requests).map Slot.symbol).Nodup ∧
    (Slot.allocateAll requests).map (fun s => (s.owner, s.len)) = requests ∧
    (∀ earlier later, requests = earlier ++ later →
      Slot.allocateAll earlier <+: Slot.allocateAll requests) ∧
    ∀ before slot after, Slot.allocateAll requests = before ++ slot :: after →
      Slot.Chosen (before.map Slot.symbol) slot.owner slot.symbol := by
  refine ⟨Slot.nodup_allocateAll requests, Slot.map_allocateAll requests, ?_, ?_⟩
  · rintro earlier later rfl
    exact Slot.allocateAll_prefix earlier later
  · intro before slot after h
    exact Slot.chosen_of_allocateAll h

/-- An owner that looks like a symbol with a number takes that number away from another one. -/
example : (Slot.allocateAll [("a_2", 1), ("a", 1), ("a", 2)]).map Slot.symbol =
    ["state_a_2", "state_a", "state_a_3"] := by decide

end LedPattern
