import LedPattern.Lowering.Kernels
import LedPattern.Proofs.Digits
import Mathlib.Data.List.Nodup
import Mathlib.Data.List.Perm.Subperm

/-!
# Names of buffers

The symbols that storage gives to buffers are pairwise different. `Storage.Named` is the invariant
that shows it: temporaries are numbered within their elements, slots have one of the candidates of
their owner, and no symbol occurs twice. `Named.symbols_nodup` draws the conclusion, and
`Named.buffer_unique` says that a symbol stands for one buffer.

Storage only grows (`Storage.Grows`), so a buffer that is declared stays declared. Each way to get
a buffer has one lemma: `acquire_spec` for a temporary, which may be an old one, `slotFor_spec` for
a slot, and `meeting_spec` for the buffer in which two branches meet.
-/

namespace LedPattern

/-- Looking for the key of an element finds the element, if no key occurs twice. -/
theorem find?_key {α : Type} {key : α → String} {l : List α} (hn : (l.map key).Nodup) {a : α}
    (ha : a ∈ l) : l.find? (fun x => decide (key x = key a)) = some a := by
  rcases hfind : l.find? (fun x => decide (key x = key a)) with _ | b
  · have hne := List.find?_eq_none.1 hfind a ha
    simp at hne
  · have hkey : key b = key a := by simpa using List.find?_some hfind
    rw [List.inj_on_of_nodup_map hn (List.mem_of_find?_eq_some hfind) ha hkey]

namespace Slot

/-- Candidates with different numbers differ. -/
theorem candidate_injective {owner : String} {j k : Nat}
    (h : candidate owner j = candidate owner k) : j = k := by
  have hlist := congrArg String.toList h
  simp only [candidate] at hlist
  split at hlist <;> split at hlist
  · next hj hk => rw [hj, hk]
  · simp at hlist
  · simp at hlist
  · simp only [String.toList_append, List.append_assoc, List.append_cancel_left_eq,
      toList_natText] at hlist
    have hsucc : j + 1 = k + 1 := digitChars_injective hlist
    omega

/-- The candidates that are taken are not more than the symbols that are. -/
theorem le_length_of_taken {taken : List String} {owner : String} {k : Nat}
    (h : ∀ j < k, candidate owner j ∈ taken) : k ≤ taken.length := by
  have hsub : (List.range k).map (candidate owner) ⊆ taken := by
    intro s hs
    obtain ⟨j, hj, rfl⟩ := List.mem_map.1 hs
    exact h j (List.mem_range.1 hj)
  have hnodup : ((List.range k).map (candidate owner)).Nodup :=
    List.nodup_range.map fun _ _ => candidate_injective
  have hle := (List.subperm_of_subset hnodup hsub).length_le
  rwa [List.length_map, List.length_range] at hle

/-- A free symbol is the first candidate that is not taken. -/
theorem freeSymbol_spec (taken : List String) (owner : String) :
    ∃ k, freeSymbol taken owner = candidate owner k ∧ candidate owner k ∉ taken ∧
      ∀ j < k, candidate owner j ∈ taken := by
  unfold freeSymbol
  dsimp only
  rw [List.find?_map]
  rcases hfind : (List.range (taken.length + 1)).find?
      ((fun s => !taken.contains s) ∘ candidate owner) with _ | k
  · -- If all were taken, there would be more candidates than taken symbols.
    have htaken : ∀ j < taken.length + 1, candidate owner j ∈ taken := by
      intro j hj
      simpa using List.find?_eq_none.1 hfind j (List.mem_range.2 hj)
    have hle := le_length_of_taken htaken
    omega
  · refine ⟨k, by simp, ?_, fun j hj => ?_⟩
    · have hk := List.find?_some hfind
      simpa using hk
    · have hlt := (List.find?_range_eq_some.1 hfind).2.2 j hj
      simpa using hlt

/-- Slots are known by their first letter. -/
theorem head?_candidate (owner : String) (k : Nat) :
    (candidate owner k).toList.head? = some 's' := by
  unfold candidate
  dsimp only
  split <;> simp [String.toList_append]

end Slot

namespace Storage

/-- The symbol of the temporary with a number among those with the same elements. -/
def tempSymbol : Elem → Nat → String
  | .float, k => "tmp_f" ++ natText k
  | .rgb, k => "tmp_rgb" ++ natText k

/-- The number of temporaries with given elements. -/
def tempCount (s : Storage) (elem : Elem) : Nat := (s.temps.filter fun t => t.elem = elem).length

/-- The next temporary gets the next number. -/
theorem nextTemp_eq (s : Storage) (elem : Elem) :
    s.nextTemp elem = tempSymbol elem (s.tempCount elem) := by
  cases elem <;> rfl

/-- The symbol of a temporary tells its elements and its number. -/
theorem tempSymbol_injective {e f : Elem} {j k : Nat} (h : tempSymbol e j = tempSymbol f k) :
    e = f ∧ j = k := by
  have hlist := congrArg String.toList h
  cases e <;> cases f <;> simp [tempSymbol, String.toList_append] at hlist ⊢
  all_goals exact digitChars_injective hlist

/-- Temporaries are known by their first letter. -/
theorem head?_tempSymbol (e : Elem) (k : Nat) : (tempSymbol e k).toList.head? = some 't' := by
  cases e <;> simp [tempSymbol, String.toList_append]

/-- The symbols of all buffers. -/
def symbols (s : Storage) : List String := s.temps.map Temp.symbol ++ s.slots.map Slot.symbol

/-- What is known of the names of buffers while storage grows. -/
structure Named (s : Storage) : Prop where
  /-- Temporaries are numbered among those with the same elements. -/
  temps : ∀ t ∈ s.temps, ∃ k < s.tempCount t.elem, t.symbol = tempSymbol t.elem k
  /-- No two temporaries have the same symbol. -/
  temps_nodup : (s.temps.map Temp.symbol).Nodup
  /-- A slot has one of the symbols that its owner may get. -/
  slots : ∀ slot ∈ s.slots, ∃ k, slot.symbol = Slot.candidate slot.owner k
  /-- No two slots have the same symbol. -/
  slots_nodup : (s.slots.map Slot.symbol).Nodup

/-- No buffer is declared at the start. -/
theorem named_empty : Named {} where
  temps := by simp
  temps_nodup := by simp
  slots := by simp
  slots_nodup := by simp

/-- A buffer that storage holds: a temporary, or a slot with its levels. -/
def Declares (s : Storage) (b : Buffer) : Prop :=
  ⟨b.symbol, b.elem, b.len⟩ ∈ s.temps ∨
    b.elem = .float ∧ ∃ slot ∈ s.slots, slot.symbol = b.symbol ∧ slot.len = b.len

/-- Storage with more buffers at the end of its lists. -/
structure Grows (s t : Storage) : Prop where
  temps : s.temps <+: t.temps
  slots : s.slots <+: t.slots

namespace Grows

/-- Storage to which nothing is added has grown. -/
theorem refl (s : Storage) : Grows s s := ⟨List.prefix_refl _, List.prefix_refl _⟩

/-- Storage that has grown twice has grown. -/
theorem trans {s t u : Storage} (h : Grows s t) (k : Grows t u) : Grows s u :=
  ⟨h.temps.trans k.temps, h.slots.trans k.slots⟩

/-- A buffer stays declared while storage grows. -/
theorem declares {s t : Storage} (h : Grows s t) {b : Buffer} (hb : s.Declares b) :
    t.Declares b := by
  rcases hb with htemp | ⟨helem, slot, hslot, hsymbol⟩
  · exact .inl (h.temps.subset htemp)
  · exact .inr ⟨helem, slot, h.slots.subset hslot, hsymbol⟩

end Grows

/-- A declared buffer has one of the symbols. -/
theorem Declares.mem_symbols {s : Storage} {b : Buffer} (h : s.Declares b) :
    b.symbol ∈ s.symbols := by
  rcases h with htemp | ⟨-, slot, hslot, hsymbol, -⟩
  · exact List.mem_append_left _ (List.mem_map_of_mem htemp)
  · exact List.mem_append_right _ (List.mem_map.2 ⟨slot, hslot, hsymbol⟩)

namespace Named

variable {s : Storage}

/-- A slot and a temporary have different symbols. -/
theorem slot_ne_temp (hs : s.Named) {slot : Slot} {t : Temp} (hslot : slot ∈ s.slots)
    (ht : t ∈ s.temps) : slot.symbol ≠ t.symbol := by
  obtain ⟨j, hj⟩ := hs.slots slot hslot
  obtain ⟨k, -, hk⟩ := hs.temps t ht
  intro h
  have hhead := congrArg (fun name : String => name.toList.head?) h
  simp only [hj, hk, Slot.head?_candidate, head?_tempSymbol] at hhead
  exact absurd hhead (by decide)

/-- All symbols differ. -/
theorem symbols_nodup (hs : s.Named) : s.symbols.Nodup := by
  refine List.nodup_append.2 ⟨hs.temps_nodup, hs.slots_nodup, ?_⟩
  intro a ha b hb
  obtain ⟨t, ht, rfl⟩ := List.mem_map.1 ha
  obtain ⟨slot, hslot, rfl⟩ := List.mem_map.1 hb
  exact (hs.slot_ne_temp hslot ht).symm

/-- A symbol stands for one buffer. -/
theorem buffer_unique (hs : s.Named) {a b : Buffer} (ha : s.Declares a) (hb : s.Declares b)
    (h : a.symbol = b.symbol) : a = b := by
  obtain ⟨x, e, m⟩ := a
  obtain ⟨y, f, n⟩ := b
  obtain rfl : x = y := h
  rcases ha with ha | ⟨rfl, slot, hslot, hx, hm⟩ <;>
    rcases hb with hb | ⟨rfl, slot', hslot', hy, hn⟩
  · have htemp := List.inj_on_of_nodup_map hs.temps_nodup ha hb rfl
    simp only [Temp.mk.injEq] at htemp
    rw [htemp.2.1, htemp.2.2]
  · exact absurd hy (hs.slot_ne_temp hslot' ha)
  · exact absurd hx (hs.slot_ne_temp hslot hb)
  · have hsame := List.inj_on_of_nodup_map hs.slots_nodup hslot hslot' (hx.trans hy.symm)
    dsimp only at hm hn
    rw [← hm, ← hn, hsame]

end Named

variable {s : Storage}

/-- A new temporary keeps the names in order. -/
theorem fresh_named (hs : s.Named) (elem : Elem) (len : Nat) : (s.fresh elem len).2.Named := by
  have hsymbol : s.nextTemp elem = tempSymbol elem (s.tempCount elem) := s.nextTemp_eq elem
  have hcount : ∀ e, (s.fresh elem len).2.tempCount e =
      s.tempCount e + if elem = e then 1 else 0 := by
    intro e
    by_cases h : elem = e <;> simp [fresh, tempCount, h]
  refine ⟨fun t ht => ?_, ?_, hs.slots, hs.slots_nodup⟩
  · rcases List.mem_append.1 ht with hold | hnew
    · obtain ⟨k, hk, hsym⟩ := hs.temps t hold
      exact ⟨k, by rw [hcount]; omega, hsym⟩
    · obtain rfl := List.mem_singleton.1 hnew
      refine ⟨s.tempCount elem, ?_, hsymbol⟩
      rw [hcount, if_pos rfl]
      exact Nat.lt_succ_self _
  · show ((s.temps ++ [Temp.mk (s.nextTemp elem) elem len]).map Temp.symbol).Nodup
    rw [List.map_append, List.map_singleton, ← List.concat_eq_append]
    refine hs.temps_nodup.concat ?_
    -- The number of an old temporary is below the new one.
    intro hmem
    obtain ⟨t, ht, hsym⟩ := List.mem_map.1 hmem
    obtain ⟨k, hk, htk⟩ := hs.temps t ht
    rw [htk, hsymbol] at hsym
    obtain ⟨helem, rfl⟩ := tempSymbol_injective hsym
    rw [helem] at hk
    exact absurd hk (Nat.lt_irrefl _)

/-- A new temporary has a new symbol. -/
theorem fresh_not_mem (hs : s.Named) (elem : Elem) (len : Nat) :
    (s.fresh elem len).1.symbol ∉ s.symbols := by
  have hnew := (fresh_named hs elem len).symbols_nodup
  intro hmem
  simp only [fresh, symbols, List.map_append, List.map_singleton, List.append_assoc] at hnew hmem
  obtain ⟨-, hrest, hdisjoint⟩ := List.nodup_append.1 hnew
  rcases List.mem_append.1 hmem with htemp | hslot
  · exact hdisjoint _ htemp _ (List.mem_cons_self ..) rfl
  · exact (List.nodup_cons.1 hrest).1 hslot

/-- What is known of a temporary of a given shape and of the storage that gave it. -/
structure Provides (s : Storage) (elem : Elem) (len : Nat) (b : Buffer) (t : Storage) : Prop where
  named : t.Named
  grows : s.Grows t
  slots : t.slots = s.slots
  elem_eq : b.elem = elem
  len_eq : b.len = len
  mem : ⟨b.symbol, elem, len⟩ ∈ t.temps
  /-- A buffer that is not the one provided was there before. -/
  older : ∀ c, t.Declares c → s.Declares c ∨ c = b

/-- The temporary that storage provides is declared. -/
theorem Provides.declares {elem : Elem} {len : Nat} {b : Buffer} {t : Storage}
    (h : s.Provides elem len b t) : t.Declares b := by
  left
  rw [h.elem_eq, h.len_eq]
  exact h.mem

/-- The temporary that storage provides is none of the buffers of other elements that were there
before. -/
theorem Provides.symbol_ne {elem : Elem} {len : Nat} {b c : Buffer} {t : Storage}
    (h : s.Provides elem len b t) (hc : s.Declares c) (helem : c.elem ≠ elem) :
    c.symbol ≠ b.symbol := by
  intro hsymbol
  have hsame := h.named.buffer_unique (h.grows.declares hc) h.declares hsymbol
  rw [hsame] at helem
  exact helem h.elem_eq

/-- A new temporary is provided. -/
theorem fresh_provides (hs : s.Named) (elem : Elem) (len : Nat) :
    s.Provides elem len (s.fresh elem len).1 (s.fresh elem len).2 where
  named := fresh_named hs elem len
  grows := ⟨List.prefix_append _ _, List.prefix_refl _⟩
  slots := rfl
  elem_eq := rfl
  len_eq := rfl
  mem := by simp [fresh]
  older := by
    rintro c (htemp | hslot)
    · rcases List.mem_append.1 htemp with hold | hnew
      · exact .inl (.inl hold)
      · obtain ⟨hsymbol, helem, hlen⟩ := Temp.mk.inj (List.mem_singleton.1 hnew)
        exact .inr (Buffer.mk.injEq .. ▸ ⟨hsymbol, helem, hlen⟩)
    · exact .inl (.inr hslot)

/-- A temporary of the right shape is provided, and it is not a buffer that is to be avoided. -/
theorem acquire_spec (hs : s.Named) (elem : Elem) (len : Nat) (avoid : String) :
    s.Provides elem len (s.acquire elem len avoid).1 (s.acquire elem len avoid).2 ∧
      (avoid ∈ s.symbols → (s.acquire elem len avoid).1.symbol ≠ avoid) := by
  unfold acquire
  split
  · next t hfind =>
    have ht := List.find?_some hfind
    simp only [Bool.and_eq_true, decide_eq_true_eq] at ht
    obtain ⟨⟨rfl, rfl⟩, hne⟩ := ht
    refine ⟨⟨hs, .refl s, rfl, rfl, rfl, List.mem_of_find?_eq_some hfind, fun _ hc => .inl hc⟩, ?_⟩
    exact fun _ => hne
  · refine ⟨fresh_provides hs elem len, fun hmem h => ?_⟩
    rw [← h] at hmem
    exact fresh_not_mem hs elem len hmem

/-- A new slot has a new symbol, and the other buffers stay. -/
theorem slotFor_spec (hs : s.Named) (owner : String) (len : Nat) :
    ∃ symbol, symbol ∉ s.symbols ∧ (s.slotFor owner len).1 = ⟨symbol, .float, len⟩ ∧
      (s.slotFor owner len).2 = { s with slots := s.slots ++ [⟨symbol, owner, len⟩] } ∧
      (s.slotFor owner len).2.Named := by
  obtain ⟨k, hk, hfree, -⟩ := Slot.freeSymbol_spec (s.slots.map Slot.symbol) owner
  have hstorage : (s.slotFor owner len).2 =
      { s with slots := s.slots ++ [⟨Slot.candidate owner k, owner, len⟩] } := by
    simp only [slotFor, Slot.allocate, hk]
  refine ⟨Slot.candidate owner k, ?_, by simp [slotFor, Slot.allocate, hk], hstorage, ?_⟩
  · intro hmem
    rcases List.mem_append.1 hmem with htemp | hslot
    · obtain ⟨t, ht, hsym⟩ := List.mem_map.1 htemp
      obtain ⟨j, -, htj⟩ := hs.temps t ht
      have hhead := Slot.head?_candidate owner k
      rw [← hsym, htj, head?_tempSymbol] at hhead
      exact absurd hhead (by decide)
    · exact hfree hslot
  · rw [hstorage]
    refine ⟨hs.temps, hs.temps_nodup, fun slot hslot => ?_, ?_⟩
    · rcases List.mem_append.1 hslot with hold | hnew
      · exact hs.slots slot hold
      · obtain rfl := List.mem_singleton.1 hnew
        exact ⟨k, rfl⟩
    · rw [List.map_append, List.map_singleton, ← List.concat_eq_append]
      exact hs.slots_nodup.concat hfree

/-- Two branches meet in a temporary: that of the primary one, or a new one. -/
theorem meeting_spec (hs : s.Named) {b : Buffer} (hb : s.Declares b) :
    s.Provides b.elem b.len (Kernel.meeting s b).1 (Kernel.meeting s b).2 := by
  unfold Kernel.meeting
  split
  · next hany =>
    refine ⟨hs, .refl s, rfl, rfl, rfl, ?_, fun _ hc => .inl hc⟩
    obtain ⟨t, ht, hsym⟩ := List.any_eq_true.1 hany
    rcases hb with htemp | ⟨-, slot, hslot, hslotsym, -⟩
    · exact htemp
    · exact absurd (hslotsym.trans (of_decide_eq_true hsym).symm) (hs.slot_ne_temp hslot ht)
  · exact fresh_provides hs b.elem b.len

end Storage

end LedPattern
