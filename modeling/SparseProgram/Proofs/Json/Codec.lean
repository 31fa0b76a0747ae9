import Mathlib.Data.List.Nodup
import SparseProgram.Json.Codec
import SparseProgram.Proofs.Json.Value

/-!
# Reading encoded values

When a value is read from what it is encoded as, and what is kept of it then.
-/

namespace SparseProgram

namespace JsonCodec

/-- Values have a text as encoded. They are read back where `P` holds, as what is kept of them. -/
structure ReadsBack (α : Type) [JsonCodec α] (P : α → Prop) (kept : α → α) : Prop where
  printable (a : α) : (encode a).Printable
  decode?_encode (a b : α) : decode? (encode a) = some b ↔ P a ∧ b = kept a

variable {α : Type} {P : α → Prop} {kept : α → α}

theorem readsBack_index : ReadsBack Nat (· < indexLimit) id where
  printable n := .int n
  decode?_encode n b := by
    show (if n < indexLimit then some n else none) = some b ↔ _
    split
    · rename_i h
      simp [h, eq_comm]
    · rename_i h
      simp [h]

theorem readsBack_number : ReadsBack Binary64 (·.isFinite = true) id where
  printable x := by
    show (encodeNumber x).Printable
    rw [encodeNumber]
    split
    · rename_i h
      exact .real (by rintro rfl; cases h)
    · exact .null
  decode?_encode x b := by
    show decodeNumber? (encodeNumber x) = some b ↔ _
    rw [encodeNumber]
    split
    · rename_i h
      simp [decodeNumber?, finite?, h, eq_comm]
    · rename_i h
      simp [decodeNumber?, h]

theorem readsBack_text : ReadsBack String (fun _ => True) id where
  printable s := .str (some s)
  decode?_encode s b := by
    show some s = some b ↔ _
    simp [eq_comm]

theorem readsBack_named [Named α] (hname : ∀ a : α, Named.ofName? (Named.name a) = some a) :
    ReadsBack α (fun _ => True) id where
  printable a := .str (some (Named.name a))
  decode?_encode a b := by
    show (some (Named.name a)).bind Named.ofName? = some b ↔ _
    rw [Option.bind_some, hname]
    simp [eq_comm]

theorem readsBack_optionalNumber :
    ReadsBack (Option Binary64) (fun _ => True) (Option.filter (·.isFinite)) where
  printable value := by
    cases value with
    | none => exact .null
    | some x => exact readsBack_number.printable x
  decode?_encode value b := by
    cases value with
    | none =>
        show some none = some b ↔ _
        simp [eq_comm]
    | some x =>
        show decode? (encodeNumber x) = some b ↔ _
        rw [encodeNumber]
        split
        · rename_i h
          show (finite? x).map some = some b ↔ _
          simp [finite?, Option.filter, h, eq_comm]
        · rename_i h
          show some none = some b ↔ _
          simp [Option.filter, h, eq_comm]

section Lists

variable [JsonCodec α]

theorem ReadsBack.list (h : ReadsBack α P kept) :
    ReadsBack (List α) (fun l => ∀ a ∈ l, P a) (List.map kept) where
  printable l := by
    refine .arr fun item hitem => ?_
    obtain ⟨a, -, rfl⟩ := List.mem_map.1 hitem
    exact h.printable a
  decode?_encode l results := by
    show (l.map encode).mapM decode? = some results ↔ _
    induction l generalizing results with
    | nil => simp [eq_comm]
    | cons a rest ih =>
        simp only [List.map_cons, List.mapM_cons, Option.bind_eq_bind, Option.bind_eq_some_iff,
          h.decode?_encode, ih, List.forall_mem_cons]
        constructor
        · rintro ⟨_, ⟨ha, rfl⟩, _, ⟨hrest, rfl⟩, hresults⟩
          exact ⟨⟨ha, hrest⟩, (Option.some.inj hresults).symm⟩
        · rintro ⟨⟨ha, hrest⟩, rfl⟩
          exact ⟨_, ⟨ha, rfl⟩, _, ⟨hrest, rfl⟩, rfl⟩

end Lists

theorem ReadsBack.list_id [JsonCodec α] (h : ReadsBack α P id) :
    ReadsBack (List α) (fun l => ∀ a ∈ l, P a) id := by
  have hlist := h.list
  rwa [List.map_id_fun] at hlist

/-! ## Records -/

variable {members : List (String × Json)}

theorem uniqueMember?_of_mem (hnodup : (members.map Prod.fst).Nodup) {key : String} {value : Json}
    (hmem : (key, value) ∈ members) :
    uniqueMember? (members.map fun (key, value) => (some key, value)) key = some (some value) := by
  have hfilter : (members.map fun (key, value) => ((some key, value) : LiteralText × Json)).filter
      (·.1 == some key) = [(some key, value)] := by
    obtain ⟨before, after, rfl⟩ := List.append_of_mem hmem
    rw [List.map_append, List.map_cons, List.nodup_middle, List.nodup_cons, List.mem_append,
      not_or] at hnodup
    have hother : ∀ rest : List (String × Json), key ∉ rest.map Prod.fst →
        (rest.map fun (key, value) => ((some key, value) : LiteralText × Json)).filter
          (·.1 == some key) = [] := by
      intro rest hkey
      simp only [List.filter_eq_nil_iff, List.forall_mem_map, beq_iff_eq, Option.some.injEq]
      rintro member hmember rfl
      exact hkey (List.mem_map_of_mem hmember)
    simp [hother before hnodup.1.1, hother after hnodup.1.2]
  rw [uniqueMember?, hfilter]

/-- All fields of a written record are found. -/
theorem fields?_object (hnodup : (members.map Prod.fst).Nodup) :
    fields? (members.map Prod.fst) (.object members)
      = some (members.map fun member => some member.2) := by
  have hall : (members.map fun (key, value) => ((some key, value) : LiteralText × Json)).all
      (·.1.isSome) = true := by simp
  have hfound : ∀ part ⊆ members,
      (part.map Prod.fst).mapM (uniqueMember? (members.map fun (key, value) => (some key, value)))
        = some (part.map fun member => some member.2) := by
    intro part hpart
    induction part with
    | nil => rfl
    | cons member rest ih =>
        rw [List.cons_subset] at hpart
        simp [uniqueMember?_of_mem hnodup hpart.1, ih hpart.2]
  rw [Json.object, fields?, if_pos hall]
  exact hfound members (List.Subset.refl members)

variable {β : Type} [JsonCodec α] {a : α} {b : β} {f : α → Option β}

/-- After a required field a record is read on with what is kept of it. -/
theorem ReadsBack.required?_bind (h : ReadsBack α P kept) :
    (required? (some (encode a))).bind f = some b ↔ P a ∧ f (kept a) = some b := by
  show (decode? (encode a)).bind f = some b ↔ _
  simp only [Option.bind_eq_some_iff, h.decode?_encode, and_assoc, exists_eq_left,
    exists_and_left]

theorem optionalNumber_bind {value : Option Binary64} {f : Option Binary64 → Option β} :
    (optional? (some (encode value))).bind f = some b
      ↔ f (value.filter (·.isFinite)) = some b := by
  show (decode? (encode value)).bind f = some b ↔ _
  simp only [Option.bind_eq_some_iff, readsBack_optionalNumber.decode?_encode, true_and,
    exists_eq_left]

theorem printable_object (h : ∀ member ∈ members, member.2.Printable) :
    (Json.object members).Printable := by
  refine .obj fun member hmember => ?_
  obtain ⟨written, hwritten, rfl⟩ := List.mem_map.1 hmember
  exact h written hwritten

end JsonCodec

end SparseProgram
