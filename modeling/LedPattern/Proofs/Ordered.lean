import LedPattern.Json.Reader
import LedPattern.Proofs.Planning
import Mathlib.Data.String.Basic

/-!
# Objects that are read list each key once

The members of an object are kept sorted while they are read, and a member replaces an earlier one
with the same key. So in a value that comes from a text every object, however deep it lies, lists
its members by increasing keys, and none of them twice (`ordered_of_parse`).
-/

namespace LedPattern.Json

/-- Every object in a value lists its members by increasing keys. -/
inductive Ordered : Json → Prop where
  | null : Ordered .null
  | bool (b : Bool) : Ordered (.bool b)
  | number (n : Number) : Ordered (.number n)
  | string (s : String) : Ordered (.string s)
  | array {items : List Json} (hitems : ∀ item ∈ items, Ordered item) : Ordered (.array items)
  | object {members : Members} (hkeys : (members.map Prod.fst).Pairwise (· < ·))
      (hvalues : ∀ m ∈ members, Ordered m.2) : Ordered (.object members)

/-- The items of an array are in order. -/
theorem Ordered.items {items : List Json} (h : (Json.array items).Ordered) :
    ∀ item ∈ items, item.Ordered := by
  cases h
  assumption

/-- The members of an object differ in their keys, and their values are in order. -/
theorem Ordered.members {members : Members} (h : (Json.object members).Ordered) :
    (members.map Prod.fst).Nodup ∧ ∀ m ∈ members, m.2.Ordered := by
  cases h with
  | object hkeys hvalues => exact ⟨hkeys.imp ne_of_lt, hvalues⟩

namespace Members

/-- A new member is added to the old ones, some of which may go. -/
theorem eq_or_mem_of_mem_insert {key : String} {value : Json} {members : Members}
    {m : String × Json} (h : m ∈ members.insert key value) : m = (key, value) ∨ m ∈ members := by
  induction members with
  | nil => exact .inl (List.mem_singleton.1 h)
  | cons first rest ih =>
    obtain ⟨k, v⟩ := first
    unfold insert at h
    split at h
    · exact List.mem_cons.1 h
    · split at h
      · exact (List.mem_cons.1 h).imp_right (List.mem_cons_of_mem _)
      · rcases List.mem_cons.1 h with rfl | h
        · exact .inr List.mem_cons_self
        · exact (ih h).imp_right (List.mem_cons_of_mem _)

/-- A new member stands where its key belongs. -/
theorem insert_sorted {members : Members} (h : (members.map Prod.fst).Pairwise (· < ·))
    (key : String) (value : Json) :
    ((members.insert key value).map Prod.fst).Pairwise (· < ·) := by
  induction members with
  | nil => exact List.pairwise_singleton _ _
  | cons first rest ih =>
    obtain ⟨k, v⟩ := first
    rw [List.map_cons, List.pairwise_cons] at h
    unfold insert
    split
    · next hlt =>
      -- The key comes before the first one, and so before all.
      rw [List.map_cons, List.pairwise_cons, List.map_cons, List.forall_mem_cons]
      exact ⟨⟨hlt, fun k' hk' => hlt.trans (h.1 k' hk')⟩, List.pairwise_cons.2 h⟩
    · next hge =>
      split
      · next heq =>
        subst heq
        exact List.pairwise_cons.2 h
      · next hne =>
        have hlt : k < key := lt_of_le_of_ne (not_lt.1 hge) (Ne.symm hne)
        rw [List.map_cons, List.pairwise_cons]
        refine ⟨fun k' hk' => ?_, ih h.2⟩
        obtain ⟨m, hm, rfl⟩ := List.mem_map.1 hk'
        rcases eq_or_mem_of_mem_insert hm with rfl | hm
        · exact hlt
        · exact h.1 _ (List.mem_map_of_mem hm)

/-- The value of a key comes from one of the members. -/
theorem mem_of_get? {members : Members} {key : String} {value : Json}
    (h : members.get? key = some value) : (key, value) ∈ members := by
  obtain ⟨before, after, rfl, -⟩ := List.lookup_eq_some_iff.1 h
  exact List.mem_append_right before List.mem_cons_self

end Members

section Reading

variable {read : Cursor → Result (Read Json)} {c c' : Cursor} {value : Json}

/-- A word stands for the value that goes with it. -/
theorem eq_of_readWord {word : List Char} {v : Json} (h : readWord v word c = .ok (value, c')) :
    value = v := by
  induction word generalizing c with
  | nil =>
    cases h
    rfl
  | cons w ws ih =>
    unfold readWord at h
    split at h
    · cases h
    · split at h
      · exact ih h
      · cases h

/-- An array is in order if what its items are read by gives values in order. -/
theorem readItems_ordered (hread : ∀ {c v c'}, read c = .ok (v, c') → v.Ordered) {fuel : Nat}
    {items : List Json} (hitems : ∀ item ∈ items, item.Ordered)
    (h : readItems read fuel items c = .ok (value, c')) : value.Ordered := by
  induction fuel generalizing items c with
  | zero => cases h
  | succ fuel ih =>
    -- Whichever way the next item is reached, it is in order.
    have hnext : ∀ {c}, (read c >>= fun r => readItems read fuel (r.1 :: items) r.2) =
        .ok (value, c') → value.Ordered := by
      intro c h
      obtain ⟨⟨item, rest⟩, hitem, h⟩ := Except.bind_eq_ok_iff.1 h
      exact ih (List.forall_mem_cons.2 ⟨hread hitem, hitems⟩) h
    unfold readItems at h
    dsimp only at h
    split at h
    · cases h
    · cases h
      exact .array fun item hmem => hitems item (List.mem_reverse.1 hmem)
    · split at h
      · exact hnext h
      · split at h
        · split at h
          · cases h
          · cases h
          · exact hnext h
        · cases h

/-- A member's value comes from what reads it. -/
theorem exists_read_of_readMember {key : String}
    (h : readMember read c = .ok ((key, value), c')) : ∃ c, read c = .ok (value, c') := by
  unfold readMember at h
  split at h
  · obtain ⟨⟨key', rest⟩, -, h⟩ := Except.bind_eq_ok_iff.1 h
    dsimp only at h
    split at h
    · cases h
    · obtain ⟨⟨v, after⟩, hv, h⟩ := Except.bind_eq_ok_iff.1 h
      cases h
      exact ⟨_, hv⟩
    · cases h
  · cases h

/-- An object is in order if what its values are read by gives values in order. -/
theorem readMembers_ordered (hread : ∀ {c v c'}, read c = .ok (v, c') → v.Ordered) {fuel : Nat}
    {members : Members} {first : Bool} (hkeys : (members.map Prod.fst).Pairwise (· < ·))
    (hvalues : ∀ m ∈ members, m.2.Ordered)
    (h : readMembers read fuel members first c = .ok (value, c')) : value.Ordered := by
  induction fuel generalizing members first c with
  | zero => cases h
  | succ fuel ih =>
    -- A member is read at two places: at the start, and after a comma.
    have hnext : ∀ {c}, (readMember read c >>= fun r =>
        readMembers read fuel (members.insert r.1.1 r.1.2) false r.2) = .ok (value, c') →
        value.Ordered := by
      intro c h
      obtain ⟨⟨⟨key, v⟩, rest⟩, hmember, h⟩ := Except.bind_eq_ok_iff.1 h
      obtain ⟨_, hv⟩ := exists_read_of_readMember hmember
      refine ih (Members.insert_sorted hkeys key v) (fun m hm => ?_) h
      rcases Members.eq_or_mem_of_mem_insert hm with rfl | hm
      · exact hread hv
      · exact hvalues m hm
    unfold readMembers at h
    dsimp only at h
    split at h
    · cases h
    · cases h
      exact .object hkeys hvalues
    · split at h
      · exact hnext h
      · split at h
        · split at h
          · cases h
          · cases h
          · exact hnext h
        · cases h

/-- A value that is read is in order, however deep it is nested. -/
theorem readValue_ordered {depth : Nat} (h : readValue depth c = .ok (value, c')) :
    value.Ordered := by
  induction depth using Nat.strong_induction_on generalizing c c' value with
  | _ depth ih =>
    have hnumber : ∀ {negative c}, (readNumber negative c >>= fun r => .ok (.number r.1, r.2)) =
        Except.ok (value, c') → value.Ordered := by
      intro negative c h
      obtain ⟨⟨n, rest⟩, -, h⟩ := Except.bind_eq_ok_iff.1 h
      cases h
      exact .number n
    unfold readValue at h
    dsimp only at h
    split at h
    · cases h
    · exact eq_of_readWord h ▸ .null
    · exact eq_of_readWord h ▸ .bool true
    · exact eq_of_readWord h ▸ .bool false
    · exact hnumber h
    · obtain ⟨⟨s, rest⟩, -, h⟩ := Except.bind_eq_ok_iff.1 h
      cases h
      exact .string s
    · -- The items and the members are nested less deep.
      cases depth with
      | zero => cases h
      | succ depth => exact readItems_ordered (ih depth (Nat.lt_succ_self _)) (by simp) h
    · cases depth with
      | zero => cases h
      | succ depth =>
        exact readMembers_ordered (ih depth (Nat.lt_succ_self _)) .nil (by simp) h
    · split at h
      · exact hnumber h
      · cases h

end Reading

/-- A value that a text spells is in order. -/
theorem ordered_of_parse {text : String} {value : Json} (h : parse text = .ok value) :
    value.Ordered := by
  unfold parse at h
  split at h
  · next hchars =>
    cases h
    obtain ⟨⟨v, rest⟩, hv, h⟩ := Except.bind_eq_ok_iff.1 hchars
    dsimp only at h
    split at h
    · cases h
      exact readValue_ordered hv
    · cases h
  · cases h

end LedPattern.Json
