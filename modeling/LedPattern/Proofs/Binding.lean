import LedPattern.Instance.Simulator
import LedPattern.Proofs.Obligations

/-!
# What names stand for

An instance replaces the names in a program by addresses. Here is what it finds for them, for any
program whose symbols and whose owners differ (`Program.Distinct`). `Program.Assigns` says which
temporary or state holds a buffer, and a place has the address that `Program.Finds` says
(`address_eq_ok_iff`).

Locals get numbers in the order in which they are bound. Replacing names leads from one scope to a
later one (`body_below`), in which the numbers given before still stand. All loops share one table
of locals, so that it is as if they were one loop (`body_leads_iff`). Its names can be replaced
exactly if its places are known and its locals are bound before they are read (`exists_leads_iff`).
-/

namespace LedPattern

/-- No symbol and no owner of a program occurs twice. -/
structure Program.Distinct (p : Program) : Prop where
  symbols : p.storage.symbols.Nodup
  owners : (p.slots.map Slot.owner).Nodup

/-- The bindings of a program's buffers, and its states before the first frame. -/
def Program.layout (p : Program) : List Binding × Arena :=
  Instance.bindSlots (Instance.bindTemps [] 0 p.temps) #[] p.slots

/-- Where a program keeps a buffer. -/
inductive Program.Assigns (p : Program) : Buffer → Holder → Prop where
  | temp {k : Nat} {t : Temp} (h : p.temps[k]? = some t) :
      Assigns p ⟨t.symbol, t.elem, t.len⟩ (.temp k)
  | slot {k : Nat} {s : Slot} (h : p.slots[k]? = some s) :
      Assigns p ⟨s.symbol, .float, s.len⟩ (.slot k)

namespace Instance

variable {bs : List Binding} {b : Binding} {arena : Arena}

/-- An item of a list and its number are the first ones, or they are in the rest of the list. -/
theorem exists_numbered_cons {α : Type} {x : α} {rest : List α} {P : Nat → α → Prop} :
    (∃ k y, (x :: rest)[k]? = some y ∧ P k y) ↔
      P 0 x ∨ ∃ k y, rest[k]? = some y ∧ P (k + 1) y := by
  rw [← Nat.or_exists_add_one]
  simp

/-- The bindings of temporaries are the given ones and one for each temporary. -/
theorem mem_bindTemps {n : Nat} {temps : List Temp} :
    b ∈ bindTemps bs n temps ↔
      b ∈ bs ∨ ∃ k t, temps[k]? = some t ∧ b = ⟨t.symbol, .temp (n + k), t.elem⟩ := by
  induction temps generalizing bs n with
  | nil => simp [bindTemps]
  | cons t rest ih =>
    rw [bindTemps, ih, List.mem_cons, exists_numbered_cons, or_assoc, or_left_comm]
    simp only [Nat.add_zero, Nat.add_assoc, Nat.add_comm 1]

/-- The symbols that the bindings of temporaries are for. -/
theorem map_symbol_bindTemps (bs : List Binding) (n : Nat) (temps : List Temp) :
    (bindTemps bs n temps).map Binding.symbol =
      (temps.map Temp.symbol).reverse ++ bs.map Binding.symbol := by
  induction temps generalizing bs n with
  | nil => rfl
  | cons t rest ih => simp [bindTemps, ih]

/-- The symbols that the bindings of slots are for. -/
theorem map_symbol_bindSlots (bs : List Binding) (arena : Arena) (slots : List Slot) :
    (bindSlots bs arena slots).1.map Binding.symbol =
      (slots.map Slot.symbol).reverse ++ bs.map Binding.symbol := by
  induction slots generalizing bs arena with
  | nil => rfl
  | cons s rest ih => simp [bindSlots, ih]

/-- No state belongs to the owner of one of some slots. -/
def Free (arena : Arena) (slots : List Slot) : Prop := ∀ s ∈ slots, ∀ b ∈ arena, b.name ≠ s.owner

/-- A slot of a new owner gets a new state. -/
theorem bindSlots_cons {s : Slot} {rest : List Slot} (h : Free arena (s :: rest)) :
    bindSlots bs arena (s :: rest) = bindSlots (⟨s.symbol, .slot arena.size, .float⟩ :: bs)
      (arena.push (NamedBuffer.zeros s.owner s.len)) rest := by
  have hposition : arena.position? s.owner = none := by
    simpa [Arena.position?, Array.findIdx?_eq_none_iff] using h s List.mem_cons_self
  simp only [bindSlots, Arena.ensure, hposition]

/-- The owners of the other slots are still new after that. -/
theorem Free.push {s : Slot} {rest : List Slot} (h : Free arena (s :: rest))
    (hs : s.owner ∉ rest.map Slot.owner) :
    Free (arena.push (NamedBuffer.zeros s.owner s.len)) rest := by
  intro t ht b hb
  rcases Array.mem_push.1 hb with hb | rfl
  · exact h t (List.mem_cons_of_mem _ ht) b hb
  · intro heq
    exact hs (List.mem_map.2 ⟨t, ht, heq.symm⟩)

/-- The states of slots of new owners, one after another. -/
theorem bindSlots_arena {slots : List Slot} (hn : (slots.map Slot.owner).Nodup)
    (hfree : Free arena slots) : (bindSlots bs arena slots).2 =
      arena ++ (slots.map fun s => NamedBuffer.zeros s.owner s.len).toArray := by
  induction slots generalizing bs arena with
  | nil => simp [bindSlots]
  | cons s rest ih =>
    rw [List.map_cons, List.nodup_cons] at hn
    rw [bindSlots_cons hfree, ih hn.2 (hfree.push hn.1)]
    simp

/-- The bindings of slots of new owners are the given ones and one for each slot. -/
theorem mem_bindSlots {slots : List Slot} (hn : (slots.map Slot.owner).Nodup)
    (hfree : Free arena slots) : b ∈ (bindSlots bs arena slots).1 ↔
      b ∈ bs ∨ ∃ k s, slots[k]? = some s ∧ b = ⟨s.symbol, .slot (arena.size + k), .float⟩ := by
  induction slots generalizing bs arena with
  | nil => simp [bindSlots]
  | cons s rest ih =>
    rw [List.map_cons, List.nodup_cons] at hn
    rw [bindSlots_cons hfree, ih hn.2 (hfree.push hn.1), List.mem_cons, Array.size_push,
      exists_numbered_cons, or_assoc, or_left_comm]
    simp only [Nat.add_zero, Nat.add_assoc, Nat.add_comm 1]

end Instance

namespace Program

variable {p : Program}

/-- The states before the first frame are those of the slots in order. -/
theorem Distinct.arena_eq (hp : p.Distinct) :
    p.layout.2 = (p.slots.map fun s => NamedBuffer.zeros s.owner s.len).toArray := by
  have hfree : Instance.Free #[] p.slots := by simp [Instance.Free]
  rw [layout, Instance.bindSlots_arena hp.owners hfree]
  simp

/-- The bindings are those of the buffers. -/
theorem Distinct.mem_layout (hp : p.Distinct) {bd : Binding} :
    bd ∈ p.layout.1 ↔ ∃ len, p.Assigns ⟨bd.symbol, bd.elem, len⟩ bd.holder := by
  have hfree : Instance.Free #[] p.slots := by simp [Instance.Free]
  simp only [layout, Instance.mem_bindSlots hp.owners hfree, Instance.mem_bindTemps,
    List.not_mem_nil, false_or, List.size_toArray, List.length_nil, Nat.zero_add]
  constructor
  · rintro (⟨k, t, ht, rfl⟩ | ⟨k, s, hs, rfl⟩)
    · exact ⟨t.len, .temp ht⟩
    · exact ⟨s.len, .slot hs⟩
  · obtain ⟨symbol, holder, elem⟩ := bd
    rintro ⟨len, h⟩
    cases h with
    | temp ht => exact .inl ⟨_, _, ht, rfl⟩
    | slot hs => exact .inr ⟨_, _, hs, rfl⟩

/-- No symbol is bound twice. -/
theorem Distinct.layout_nodup (hp : p.Distinct) : (p.layout.1.map Binding.symbol).Nodup := by
  have hperm : (p.layout.1.map Binding.symbol).Perm p.storage.symbols := by
    rw [layout, Instance.map_symbol_bindSlots, Instance.map_symbol_bindTemps, List.map_nil,
      List.append_nil]
    exact ((List.reverse_perm _).append (List.reverse_perm _)).trans List.perm_append_comm
  exact hperm.nodup_iff.2 hp.symbols

/-- A symbol that is bound stands for a buffer that has it. -/
theorem Distinct.assigns_of_find? (hp : p.Distinct) {symbol : String} {bd : Binding}
    (h : p.layout.1.find? (fun b => b.symbol = symbol) = some bd) :
    ∃ len, p.Assigns ⟨symbol, bd.elem, len⟩ bd.holder := by
  have hsymbol : bd.symbol = symbol := by simpa using List.find?_some h
  rw [← hsymbol]
  exact hp.mem_layout.1 (List.mem_of_find?_eq_some h)

/-- The symbol of a buffer stands for it. -/
theorem Distinct.find?_of_assigns (hp : p.Distinct) {b : Buffer} {holder : Holder}
    (h : p.Assigns b holder) : p.layout.1.find? (fun x => x.symbol = b.symbol) =
      some ⟨b.symbol, holder, b.elem⟩ := by
  have hmem : ⟨b.symbol, holder, b.elem⟩ ∈ p.layout.1 := hp.mem_layout.2 ⟨b.len, h⟩
  exact find?_key hp.layout_nodup hmem

/-- A buffer that is kept somewhere is declared. -/
theorem Assigns.declares {b : Buffer} {holder : Holder} (h : p.Assigns b holder) :
    p.storage.Declares b := by
  cases h with
  | temp ht => exact .inl (List.mem_of_getElem? ht)
  | slot hs => exact .inr ⟨rfl, _, List.mem_of_getElem? hs, rfl, rfl⟩

/-- A declared buffer is kept somewhere. -/
theorem exists_assigns {b : Buffer} (h : p.storage.Declares b) : ∃ holder, p.Assigns b holder := by
  rcases h with ht | ⟨helem, s, hs, hsymbol, hlen⟩
  · obtain ⟨k, hk⟩ := List.getElem?_of_mem ht
    exact ⟨.temp k, .temp hk⟩
  · obtain ⟨k, hk⟩ := List.getElem?_of_mem hs
    obtain ⟨symbol, elem, len⟩ := b
    dsimp only at helem hsymbol hlen
    rw [helem, ← hsymbol, ← hlen]
    exact ⟨.slot k, .slot hk⟩

/-- What holds one buffer holds no other. -/
theorem Assigns.buffer_unique {b c : Buffer} {holder : Holder} (hb : p.Assigns b holder)
    (hc : p.Assigns c holder) : b = c := by
  cases hb with
  | temp ht =>
    cases hc with
    | temp hu =>
      obtain rfl := Option.some.inj (ht.symm.trans hu)
      rfl
  | slot hs =>
    cases hc with
    | slot hu =>
      obtain rfl := Option.some.inj (hs.symm.trans hu)
      rfl

/-- A symbol means one buffer, which is kept in one place. -/
theorem Distinct.assigns_unique (hp : p.Distinct) {b c : Buffer} {holder keeper : Holder}
    (hb : p.Assigns b holder) (hc : p.Assigns c keeper) (h : b.symbol = c.symbol) :
    b = c ∧ holder = keeper := by
  have hfirst := hp.find?_of_assigns hb
  rw [h, hp.find?_of_assigns hc] at hfirst
  obtain ⟨-, rfl, -⟩ := Binding.mk.inj (Option.some.inj hfirst)
  exact ⟨hb.buffer_unique hc, rfl⟩

/-- The address of a place. -/
inductive Finds (p : Program) : Place → Address → Prop where
  | out {index : Index} {c : Channel} : Finds p ⟨.out, index, some c⟩ ⟨.pixel c, index⟩
  | level {symbol : String} {len : Nat} {holder : Holder} {index : Index}
      (h : p.Assigns ⟨symbol, .float, len⟩ holder) :
      Finds p ⟨.buffer symbol, index, none⟩ ⟨holder.region .float 0, index⟩
  | color {symbol : String} {len : Nat} {holder : Holder} {index : Index} {c : Channel}
      (h : p.Assigns ⟨symbol, .rgb, len⟩ holder) :
      Finds p ⟨.buffer symbol, index, some c⟩ ⟨holder.region .rgb c.lane, index⟩

end Program

namespace Instr

/-- The local that an instruction binds. -/
def bound? : Instr Place String → Option String
  | .bind name _ => some name
  | .store _ _ => none

variable {bound : List String} {i : Instr Place String} {is : List (Instr Place String)}

/-- The first of some instructions reads what is bound, and the others also what it binds. -/
theorem closed_cons : Closed bound (i :: is) ↔
    i.value.refs ⊆ bound ∧ Closed (i.bound?.toList ++ bound) is := by
  cases i <;> exact Iff.rfl

/-- What each instruction of a closed sequence may read. -/
theorem closed_iff : Closed bound is ↔
    ∀ pre i post, is = pre ++ i :: post → i.value.refs ⊆ bound ++ pre.filterMap bound? := by
  induction is generalizing bound with
  | nil => exact ⟨fun _ pre i post h => by simp at h, fun _ => trivial⟩
  | cons first rest ih =>
    -- The first instruction's local stands before or behind the others that are bound.
    have hmove : ∀ pre : List (Instr Place String), ∀ name,
        name ∈ (first.bound?.toList ++ bound) ++ pre.filterMap bound? ↔
          name ∈ bound ++ (first :: pre).filterMap bound? := by
      intro pre name
      cases h : first.bound? <;> simp [h, or_left_comm]
    rw [closed_cons, ih]
    constructor
    · rintro ⟨hfirst, hrest⟩ pre i post heq
      cases pre with
      | nil =>
        obtain ⟨rfl, -⟩ := List.cons.inj heq
        simpa using hfirst
      | cons other pre =>
        obtain ⟨rfl, hbehind⟩ := List.cons.inj heq
        intro name hname
        exact (hmove pre name).1 (hrest pre i post hbehind hname)
    · intro h
      refine ⟨by simpa using h [] first rest rfl, fun pre i post heq name hname => ?_⟩
      refine (hmove pre name).2 (h (first :: pre) i post ?_ hname)
      rw [heq, List.cons_append]

/-- What is closed stays so when more is bound. -/
theorem Closed.mono {more : List String} (h : Closed bound is) (hsub : bound ⊆ more) :
    Closed more is := by
  rw [closed_iff] at h ⊢
  intro pre i post heq name hname
  rw [List.mem_append]
  exact (List.mem_append.1 (h pre i post heq hname)).imp_left fun hmem => hsub hmem

/-- A sequence that reads nothing from outside may follow any other. -/
theorem Closed.append {js : List (Instr Place String)} (h : Closed bound is) (hjs : Closed [] js) :
    Closed bound (is ++ js) := by
  induction is generalizing bound with
  | nil => exact hjs.mono (List.nil_subset _)
  | cons i rest ih =>
    rw [closed_cons] at h
    rw [List.cons_append, closed_cons]
    exact ⟨h.1, ih h.2⟩

/-- Loops that read nothing from outside, one after another, read nothing from outside. -/
theorem closed_flatMap {loops : List (Nat × List (Instr Place String))}
    (h : ∀ l ∈ loops, Closed [] l.2) : Closed [] (loops.flatMap Prod.snd) := by
  induction loops with
  | nil => trivial
  | cons l rest ih =>
    rw [List.forall_mem_cons] at h
    exact h.1.append (ih h.2)

end Instr

namespace Scope

variable {p : Program} {s t : Scope}

/-- The addresses of places in the scope of a program. -/
theorem address_eq_ok_iff (hp : p.Distinct) (hs : s.buffers = p.layout.1) {place : Place}
    {a : Address} : s.address place = .ok a ↔ p.Finds place a := by
  constructor
  · intro h
    obtain ⟨symbol | _, index, channel⟩ := place
    · simp only [address, hs] at h
      rcases hfind : p.layout.1.find? (fun b => b.symbol = symbol) with _ | bd
      · simp [hfind] at h
      · obtain ⟨len, hbd⟩ := hp.assigns_of_find? hfind
        simp only [hfind] at h
        -- A buffer of levels has no colors to choose from, and one of colors needs a choice.
        cases helem : bd.elem <;> cases channel <;> simp only [helem, reduceCtorEq] at h
        · cases h
          rw [helem] at hbd
          exact .level hbd
        · cases h
          rw [helem] at hbd
          exact .color hbd
    · cases channel with
      | none => cases h
      | some c =>
        cases h
        exact .out
  · intro h
    cases h with
    | out => rfl
    | level h => simp only [address, hs, hp.find?_of_assigns h]
    | color h => simp only [address, hs, hp.find?_of_assigns h]

/-- The number of a local is its place among the locals. -/
theorem getElem?_of_number {name : String} {k : Nat} (h : s.number name = .ok k) :
    s.locals[k]? = some name := by
  unfold number at h
  split at h
  · rename_i i hfind
    cases h
    obtain ⟨hlt, hname, -⟩ := List.findIdx?_eq_some_iff_getElem.1 hfind
    rw [List.getElem?_eq_getElem hlt]
    simpa using hname
  · cases h

/-- A local that is bound has a number. -/
theorem number_isOk {name : String} (h : name ∈ s.locals) : ∃ k, s.number name = .ok k := by
  unfold number
  split
  · exact ⟨_, rfl⟩
  · rename_i hfind
    have hne := List.findIdx?_eq_none_iff.1 hfind name h
    simp at hne

/-- A scope comes before another one: it has the same buffers, and its locals come first. -/
structure Below (s t : Scope) : Prop where
  buffers : t.buffers = s.buffers
  locals : s.locals <+: t.locals
  nodup : s.locals.Nodup → t.locals.Nodup

/-- A scope comes before itself. -/
theorem Below.refl (s : Scope) : s.Below s := ⟨rfl, List.prefix_rfl, id⟩

/-- The order of scopes is transitive. -/
theorem Below.trans {u : Scope} (hst : s.Below t) (htu : t.Below u) : s.Below u where
  buffers := htu.buffers.trans hst.buffers
  locals := hst.locals.trans htu.locals
  nodup := fun h => htu.nodup (hst.nodup h)

/-- A local that gets bound has a number in the scope after that. -/
theorem bind_spec (s : Scope) (name : String) :
    s.Below (s.bind name).1 ∧ (s.bind name).1.locals[(s.bind name).2]? = some name := by
  unfold bind
  split
  · rename_i k hfind
    have hnumber : s.number name = .ok k := by simp only [number, hfind]
    exact ⟨.refl s, getElem?_of_number hnumber⟩
  · rename_i hfind
    have hnew : name ∉ s.locals := by
      intro hmem
      have hne := List.findIdx?_eq_none_iff.1 hfind name hmem
      simp at hne
    refine ⟨⟨rfl, List.prefix_append _ _, fun h => ?_⟩, by simp⟩
    exact List.nodup_append.2 ⟨h, List.nodup_singleton _, fun x hx y hy => by
      rintro rfl
      exact hnew (List.mem_singleton.1 hy ▸ hx)⟩

/-- Replacing the names in an instruction leads to a later scope. -/
theorem instr_below {i : Instr Place String} {j : Instr Address Nat}
    (h : s.instr i = .ok (t, j)) : s.Below t := by
  cases i with
  | bind name value =>
    obtain ⟨_, -, h⟩ := Except.bind_eq_ok_iff.1 h
    cases h
    exact (bind_spec s name).1
  | store place value =>
    obtain ⟨_, -, h⟩ := Except.bind_eq_ok_iff.1 h
    obtain ⟨_, -, h⟩ := Except.bind_eq_ok_iff.1 h
    cases h
    exact .refl s

/-- Replacing the names in a loop's body leads to a later scope. -/
theorem instrs_below {is : List (Instr Place String)} {js : List (Instr Address Nat)}
    (h : s.instrs is = .ok (t, js)) : s.Below t := by
  induction is generalizing s js with
  | nil =>
    cases h
    exact .refl _
  | cons i rest ih =>
    obtain ⟨⟨u, j⟩, hfirst, h⟩ := Except.bind_eq_ok_iff.1 h
    obtain ⟨⟨v, js'⟩, hrest, h⟩ := Except.bind_eq_ok_iff.1 h
    cases h
    exact (instr_below hfirst).trans (ih hrest)

/-- Replacing the names in a sequence of statements leads to a later scope. -/
theorem body_below {b : Body} {code : MachineCode} (h : s.body b = .ok (t, code)) :
    s.Below t := by
  induction b generalizing s t code with
  | done =>
    cases h
    exact .refl s
  | note _ _ ih => exact ih h
  | loop count is rest ih =>
    obtain ⟨⟨u, js⟩, hinstrs, h⟩ := Except.bind_eq_ok_iff.1 h
    obtain ⟨⟨v, code'⟩, hrest, h⟩ := Except.bind_eq_ok_iff.1 h
    cases h
    exact (instrs_below hinstrs).trans (ih hrest)
  | branch test yes no rest ihyes ihno ihrest =>
    obtain ⟨⟨u, code₁⟩, hyes, h⟩ := Except.bind_eq_ok_iff.1 h
    obtain ⟨⟨v, code₂⟩, hno, h⟩ := Except.bind_eq_ok_iff.1 h
    obtain ⟨⟨w, code₃⟩, hrest, h⟩ := Except.bind_eq_ok_iff.1 h
    cases h
    exact ((ihyes hyes).trans (ihno hno)).trans (ihrest hrest)

/-- Addresses depend on the buffers alone. -/
theorem address_congr (h : t.buffers = s.buffers) (place : Place) :
    t.address place = s.address place := by
  simp only [address, h]

/-- The locals with numbers are those that are bound. -/
theorem number_isOk_iff {name : String} : (∃ k, s.number name = .ok k) ↔ name ∈ s.locals :=
  ⟨fun ⟨_, hk⟩ => List.mem_of_getElem? (getElem?_of_number hk), number_isOk⟩

/-- The locals after one is bound. -/
theorem mem_locals_bind {name x : String} :
    x ∈ (s.bind name).1.locals ↔ x = name ∨ x ∈ s.locals := by
  obtain ⟨hbelow, hname⟩ := bind_spec s name
  constructor
  · intro hx
    unfold bind at hx
    split at hx
    · exact .inr hx
    · exact (List.mem_append.1 hx).symm.imp_left List.mem_singleton.1
  · rintro (rfl | hx)
    · exact List.mem_of_getElem? hname
    · exact hbelow.locals.subset hx

/-- An expression can be addressed exactly if its places and locals are known. -/
theorem expr_isOk_iff {e : Expr Place String} : (∃ x, s.expr e = .ok x) ↔
    (∀ place ∈ e.places, ∃ a, s.address place = .ok a) ∧ e.refs ⊆ s.locals := by
  constructor
  · rintro ⟨x, hx⟩
    induction e generalizing x with
    | const | counter | param | spectrum | energy => simp [Expr.places, Expr.refs]
    | load place =>
      obtain ⟨a, ha, -⟩ := Except.bind_eq_ok_iff.1 hx
      simp [Expr.places, Expr.refs, ha]
    | ref name =>
      obtain ⟨k, hk, -⟩ := Except.bind_eq_ok_iff.1 hx
      simp [Expr.places, Expr.refs, number_isOk_iff.1 ⟨k, hk⟩]
    | binary op a b iha ihb =>
      obtain ⟨y, hy, hx⟩ := Except.bind_eq_ok_iff.1 hx
      obtain ⟨z, hz, -⟩ := Except.bind_eq_ok_iff.1 hx
      obtain ⟨hplacesA, hrefsA⟩ := iha y hy
      obtain ⟨hplacesB, hrefsB⟩ := ihb z hz
      exact ⟨List.forall_mem_append.2 ⟨hplacesA, hplacesB⟩, List.append_subset.2 ⟨hrefsA, hrefsB⟩⟩
    | clamp01 e ih =>
      obtain ⟨y, hy, -⟩ := Except.bind_eq_ok_iff.1 hx
      exact ih y hy
    | floor e ih =>
      obtain ⟨y, hy, -⟩ := Except.bind_eq_ok_iff.1 hx
      exact ih y hy
  · rintro ⟨hplaces, hrefs⟩
    induction e with
    | const | counter | param | spectrum | energy => exact ⟨_, rfl⟩
    | load place =>
      obtain ⟨a, ha⟩ := hplaces place (by simp [Expr.places])
      exact ⟨.load a, Except.bind_eq_ok_iff.2 ⟨a, ha, rfl⟩⟩
    | ref name =>
      obtain ⟨k, hk⟩ := number_isOk (hrefs (by simp [Expr.refs] : name ∈ _))
      exact ⟨.ref k, Except.bind_eq_ok_iff.2 ⟨k, hk, rfl⟩⟩
    | binary op a b iha ihb =>
      simp only [Expr.places, List.mem_append, or_imp, forall_and] at hplaces
      simp only [Expr.refs, List.append_subset] at hrefs
      obtain ⟨x, hx⟩ := iha hplaces.1 hrefs.1
      obtain ⟨y, hy⟩ := ihb hplaces.2 hrefs.2
      exact ⟨.binary op x y,
        Except.bind_eq_ok_iff.2 ⟨x, hx, Except.bind_eq_ok_iff.2 ⟨y, hy, rfl⟩⟩⟩
    | clamp01 e ih =>
      obtain ⟨x, hx⟩ := ih hplaces hrefs
      exact ⟨.clamp01 x, Except.bind_eq_ok_iff.2 ⟨x, hx, rfl⟩⟩
    | floor e ih =>
      obtain ⟨x, hx⟩ := ih hplaces hrefs
      exact ⟨.floor x, Except.bind_eq_ok_iff.2 ⟨x, hx, rfl⟩⟩

/-- An instruction can be addressed exactly if its places and the locals that it reads are
known. -/
theorem instr_isOk_iff {i : Instr Place String} : (∃ r, s.instr i = .ok r) ↔
    (∀ place ∈ i.places, ∃ a, s.address place = .ok a) ∧ i.value.refs ⊆ s.locals := by
  cases i with
  | bind name value =>
    refine Iff.trans ⟨fun ⟨r, hr⟩ => ?_, fun ⟨x, hx⟩ => ?_⟩ expr_isOk_iff
    · obtain ⟨x, hx, -⟩ := Except.bind_eq_ok_iff.1 hr
      exact ⟨x, hx⟩
    · exact ⟨_, Except.bind_eq_ok_iff.2 ⟨x, hx, rfl⟩⟩
  | store place value =>
    rw [Instr.places, Instr.value, List.forall_mem_cons, and_assoc, ← expr_isOk_iff]
    constructor
    · rintro ⟨r, hr⟩
      obtain ⟨a, ha, hr⟩ := Except.bind_eq_ok_iff.1 hr
      obtain ⟨x, hx, -⟩ := Except.bind_eq_ok_iff.1 hr
      exact ⟨⟨a, ha⟩, x, hx⟩
    · rintro ⟨⟨a, ha⟩, x, hx⟩
      exact ⟨_, Except.bind_eq_ok_iff.2 ⟨a, ha, Except.bind_eq_ok_iff.2 ⟨x, hx, rfl⟩⟩⟩

/-- The locals after an instruction. -/
theorem mem_locals_instr {i : Instr Place String} {j : Instr Address Nat}
    (h : s.instr i = .ok (t, j)) (x : String) :
    x ∈ t.locals ↔ x ∈ i.bound?.toList ++ s.locals := by
  cases i with
  | bind name value =>
    obtain ⟨_, -, h⟩ := Except.bind_eq_ok_iff.1 h
    obtain ⟨rfl, -⟩ : (s.bind name).1 = t ∧ _ := Prod.mk.inj (Except.ok.inj h)
    rw [mem_locals_bind, Instr.bound?, Option.toList_some, List.singleton_append, List.mem_cons]
  | store place value =>
    obtain ⟨_, -, h⟩ := Except.bind_eq_ok_iff.1 h
    obtain ⟨_, -, h⟩ := Except.bind_eq_ok_iff.1 h
    cases h
    simp [Instr.bound?]

/-- The scope after the names in some instructions are replaced. -/
def Leads (s : Scope) (is : List (Instr Place String)) (t : Scope) : Prop :=
  ∃ js, s.instrs is = .ok (t, js)

/-- No instruction leads to the same scope. -/
theorem leads_nil : s.Leads [] t ↔ t = s := by
  constructor
  · rintro ⟨js, h⟩
    cases h
    rfl
  · rintro rfl
    exact ⟨[], rfl⟩

/-- The first instruction leads to the scope that the others start from. -/
theorem leads_cons {i : Instr Place String} {is : List (Instr Place String)} :
    s.Leads (i :: is) t ↔ ∃ u, (∃ j, s.instr i = .ok (u, j)) ∧ u.Leads is t := by
  constructor
  · rintro ⟨_, h⟩
    obtain ⟨⟨u, j⟩, hfirst, h⟩ := Except.bind_eq_ok_iff.1 h
    obtain ⟨⟨v, js⟩, hrest, h⟩ := Except.bind_eq_ok_iff.1 h
    cases h
    exact ⟨u, ⟨j, hfirst⟩, js, hrest⟩
  · rintro ⟨u, ⟨j, hfirst⟩, js, hrest⟩
    exact ⟨j :: js, Except.bind_eq_ok_iff.2 ⟨_, hfirst, Except.bind_eq_ok_iff.2 ⟨_, hrest, rfl⟩⟩⟩

/-- The instructions of one sequence lead to the scope that those of the next start from. -/
theorem leads_append {is js : List (Instr Place String)} :
    s.Leads (is ++ js) t ↔ ∃ u, s.Leads is u ∧ u.Leads js t := by
  induction is generalizing s with
  | nil => simp only [List.nil_append, leads_nil, exists_eq_left]
  | cons i rest ih =>
    simp only [List.cons_append, leads_cons, ih]
    constructor
    · rintro ⟨v, hfirst, u, hrest, hlast⟩
      exact ⟨u, ⟨v, hfirst, hrest⟩, hlast⟩
    · rintro ⟨u, ⟨v, hfirst, hrest⟩, hlast⟩
      exact ⟨v, hfirst, u, hrest, hlast⟩

/-- Statements lead where the instructions of all their loops do. -/
theorem body_leads_iff {b : Body} :
    (∃ code, s.body b = .ok (t, code)) ↔ s.Leads (b.loops.flatMap Prod.snd) t := by
  induction b generalizing s t with
  | done =>
    rw [Block.loops, List.flatMap_nil, leads_nil]
    constructor
    · rintro ⟨code, h⟩
      cases h
      rfl
    · rintro rfl
      exact ⟨.done, rfl⟩
  | note _ _ ih => exact ih
  | loop count is rest ih =>
    simp only [Block.loops, List.flatMap_cons, leads_append, ← ih]
    constructor
    · rintro ⟨_, h⟩
      obtain ⟨⟨u, js⟩, hinstrs, h⟩ := Except.bind_eq_ok_iff.1 h
      obtain ⟨⟨v, code⟩, hrest, h⟩ := Except.bind_eq_ok_iff.1 h
      cases h
      exact ⟨u, ⟨js, hinstrs⟩, code, hrest⟩
    · rintro ⟨u, ⟨js, hinstrs⟩, code, hrest⟩
      exact ⟨_, Except.bind_eq_ok_iff.2 ⟨_, hinstrs, Except.bind_eq_ok_iff.2 ⟨_, hrest, rfl⟩⟩⟩
  | branch test yes no rest ihyes ihno ihrest =>
    -- The locals of one way are still bound in the other, as in the text from top to bottom.
    simp only [Block.loops, List.flatMap_append, leads_append, ← ihyes, ← ihno, ← ihrest]
    constructor
    · rintro ⟨_, h⟩
      obtain ⟨⟨u, code₁⟩, hyes, h⟩ := Except.bind_eq_ok_iff.1 h
      obtain ⟨⟨v, code₂⟩, hno, h⟩ := Except.bind_eq_ok_iff.1 h
      obtain ⟨⟨w, code₃⟩, hrest, h⟩ := Except.bind_eq_ok_iff.1 h
      cases h
      exact ⟨v, ⟨u, ⟨code₁, hyes⟩, code₂, hno⟩, code₃, hrest⟩
    · rintro ⟨v, ⟨u, ⟨code₁, hyes⟩, code₂, hno⟩, code₃, hrest⟩
      exact ⟨_, Except.bind_eq_ok_iff.2 ⟨_, hyes, Except.bind_eq_ok_iff.2 ⟨_, hno,
        Except.bind_eq_ok_iff.2 ⟨_, hrest, rfl⟩⟩⟩⟩

/-- The names in instructions can be replaced exactly if their places are known and their locals
are bound in time. -/
theorem exists_leads_iff {is : List (Instr Place String)} : (∃ t, s.Leads is t) ↔
    (∀ i ∈ is, ∀ place ∈ i.places, ∃ a, s.address place = .ok a) ∧
      Instr.Closed s.locals is := by
  induction is generalizing s with
  | nil => exact ⟨fun _ => ⟨by simp, trivial⟩, fun _ => ⟨s, leads_nil.2 rfl⟩⟩
  | cons i rest ih =>
    -- The scope after the first instruction knows the same places, and its local besides.
    have hlater : ∀ {u j}, s.instr i = .ok (u, j) → ((∃ t, u.Leads rest t) ↔
        (∀ i ∈ rest, ∀ place ∈ i.places, ∃ a, s.address place = .ok a) ∧
          Instr.Closed (i.bound?.toList ++ s.locals) rest) := by
      intro u j hfirst
      have hlocals := mem_locals_instr hfirst
      have hclosed : Instr.Closed u.locals rest ↔
          Instr.Closed (i.bound?.toList ++ s.locals) rest :=
        ⟨fun h => h.mono fun x hx => (hlocals x).1 hx, fun h => h.mono fun x hx => (hlocals x).2 hx⟩
      rw [ih, hclosed]
      simp only [address_congr (instr_below hfirst).buffers]
    simp only [leads_cons]
    rw [List.forall_mem_cons, Instr.closed_cons]
    constructor
    · rintro ⟨t, u, ⟨j, hfirst⟩, hrest⟩
      obtain ⟨hplaces, hrefs⟩ := instr_isOk_iff.1 ⟨_, hfirst⟩
      obtain ⟨hplacesRest, hclosedRest⟩ := (hlater hfirst).1 ⟨t, hrest⟩
      exact ⟨⟨hplaces, hplacesRest⟩, hrefs, hclosedRest⟩
    · rintro ⟨⟨hplaces, hplacesRest⟩, hrefs, hclosedRest⟩
      obtain ⟨⟨u, j⟩, hfirst⟩ := instr_isOk_iff.2 ⟨hplaces, hrefs⟩
      obtain ⟨t, hrest⟩ := (hlater hfirst).2 ⟨hplacesRest, hclosedRest⟩
      exact ⟨t, u, ⟨j, hfirst⟩, hrest⟩

/-- Statements whose loops find their places and locals can be addressed. -/
theorem body_isOk (hp : p.Distinct) (hs : s.buffers = p.layout.1) {b : Body}
    (hplaces : ∀ l ∈ b.loops, ∀ i ∈ l.2, ∀ place ∈ i.places, ∃ a, p.Finds place a)
    (hclosed : ∀ l ∈ b.loops, Instr.Closed [] l.2) : ∃ r, s.body b = .ok r := by
  have haddress : ∀ i ∈ b.loops.flatMap Prod.snd, ∀ place ∈ i.places,
      ∃ a, s.address place = .ok a := by
    intro i hi place hplace
    obtain ⟨l, hl, hi⟩ := List.mem_flatMap.1 hi
    simp only [address_eq_ok_iff hp hs]
    exact hplaces l hl i hi place hplace
  have hrow := (Instr.closed_flatMap hclosed).mono (List.nil_subset s.locals)
  obtain ⟨t, ht⟩ := exists_leads_iff.2 ⟨haddress, hrow⟩
  obtain ⟨code, hcode⟩ := body_leads_iff.2 ht
  exact ⟨_, hcode⟩

end Scope

end LedPattern
