import Mathlib
import DecisionService.Proofs.Outcome
import DecisionService.Wire.Schema
/-!
# Nodes that are cut short

A source refuses nodes that are cut short when nothing can be read from them, and every container
among them shows its cut to whoever takes all that is in it. Then no schema can be read from such a
node, however deep the cut is and whatever the schema makes of missing fields.
-/
namespace DecisionService.Wire

open Outcome

/-- Taking all fields comes across the cut: it is in a field, behind the last one, or in a name. -/
def Fields.CutShort {ν : Type} (cut : ν → Prop) : Fields ν → Prop
  | .positional items surplus =>
    (∀ count < items.nodes.length, Fails (surplus count))
      ∧ ((∃ node ∈ items.nodes, cut node) ∨ Fails (surplus items.nodes.length))
  | .named entries stop => (∃ e ∈ entries, Fails e.1 ∨ cut e.2) ∨ Fails stop

structure Source.Refuses (ν : Type) [Source ν] (cut : ν → Prop) : Prop where
  value : ∀ {depth node}, cut node → Fails (Source.value depth node)
  number : ∀ {depth node}, cut node → Fails (Source.number depth node)
  entries : ∀ {depth node}, cut node → Fails (Source.entries depth node)
  text : ∀ {depth node}, cut node → Fails (Source.text depth node)
  natural : ∀ {limit typeName node}, cut node → Fails (Source.natural limit typeName node)
  isNull : ∀ {node}, cut node → Source.isNull node = false
  choice : ∀ {depth known node}, cut node → Fails (Source.choice depth known node)
  items : ∀ {depth node items}, cut node → Source.items depth node = .ok items →
    (∃ item ∈ items.nodes, cut item) ∨ Fails items.stop
  fields : ∀ {depth expected node fields}, cut node →
    Source.fields depth expected node = .ok fields → fields.CutShort cut
  skip : ∀ {depth node}, cut node → Fails (Source.skip depth node)

theorem FieldName.position?_lt {names : List String} {name : FieldName} {n : Nat}
    (h : name.position? names = some n) : n < names.length := by
  cases name with
  | name s => exact (List.findIdx?_eq_some_iff_getElem.mp h).1
  | position m =>
    simp only [FieldName.position?] at h
    split at h
    · next hlt =>
      cases h
      exact hlt
    · cases h
  | other => cases h

theorem Items.readAll_fails {ν α : Type} {cut : ν → Prop} {read : ν → Except Problem α}
    {items : Items ν} (hread : ∀ node, cut node → Fails (read node))
    (h : (∃ item ∈ items.nodes, cut item) ∨ Fails items.stop) : Fails (items.readAll read) := by
  rcases h with ⟨item, hmem, hcut⟩ | hstop
  · exact (fails_mapM hmem (hread item hcut)).bind _
  · exact fails_bind fun _ _ => hstop.bind _

variable {ν : Type} [Source ν] {cut : ν → Prop}

/-- A name or a value that is cut short is come across, also where no field takes the value. -/
theorem readNamed_fails {δ : Type} (h : Source.Refuses ν cut) {names : List String} {depth : Nat}
    {readField : Nat → ν → δ → Except Problem δ}
    (hread : ∀ n < names.length, ∀ node, cut node → ∀ draft, Fails (readField n node draft))
    {entries : List (Except Problem FieldName × ν)} (hcut : ∃ e ∈ entries, Fails e.1 ∨ cut e.2)
    (draft : δ) : Fails (readNamed names depth readField entries draft) := by
  obtain ⟨entry, hmem, hentry⟩ := hcut
  induction entries generalizing draft with
  | nil => cases hmem
  | cons first rest ih =>
    obtain ⟨name, node⟩ := first
    rw [readNamed]
    rcases List.mem_cons.mp hmem with rfl | hmem
    · rcases hentry with hname | hnode
      · exact hname.bind _
      · refine fails_bind fun field _ => ?_
        dsimp only
        split
        · exact (h.skip hnode).bind _
        · next n hn => exact (hread n (FieldName.position?_lt hn) node hnode draft).bind _
    · refine fails_bind fun field _ => ?_
      dsimp only
      split
      · exact fails_bind fun _ _ => ih draft hmem
      · exact fails_bind fun next _ => ih next hmem

mutual

theorem Schema.read_fails (h : Source.Refuses ν cut) : (schema : Schema) → (depth : Nat) →
    {node : ν} → cut node → Fails (schema.read depth node)
  | .text _, _, _, hcut => h.text hcut
  | .natural _ _ _, _, _, hcut => h.natural hcut
  | .choice _ _, _, _, hcut => (h.choice hcut).bind _
  | .value, _, _, hcut => h.value hcut
  | .number, _, _, hcut => h.number hcut
  | .entries, _, _, hcut => h.entries hcut
  | .optional schema, depth, node, hcut => by
    obtain ⟨e, he⟩ := schema.read_fails h depth hcut
    rw [Schema.read, h.isNull hcut, he]
    exact ⟨e, rfl⟩
  | .list schema, depth, node, hcut =>
    fails_bind fun _ hitems =>
      Items.readAll_fails (fun _ => schema.read_fails h (depth - 1)) (h.items hcut hitems)
  | .record name fields, depth, node, hcut => by
    refine fails_bind fun given hgiven => ?_
    have hfields := h.fields hcut hgiven
    cases given with
    | positional items surplus =>
      obtain ⟨hsurplus, hitems⟩ := hfields
      by_cases hlen : items.nodes.length ≤ fields.names.length
      · rcases hitems with hnode | hend
        · exact (fields.readList_fails h _ _ _ _ hlen hnode).bind _
        · refine fails_bind fun _ _ => ?_
          rw [Nat.min_eq_right hlen]
          exact hend.bind _
      · exact fails_bind fun _ _ => (hsurplus _ (by omega)).bind _
    | named entries stop =>
      rcases hfields with hentry | hstop
      · exact (readNamed_fails h (fun n hn node hnode => fields.readField_fails h _ hn hnode) hentry
          _).bind _
      · exact fails_bind fun _ _ => hstop.bind _

theorem FieldSchemas.readList_fails (h : Source.Refuses ν cut) : (fields : FieldSchemas) →
    (words : String) → (depth position : Nat) → (items : Items ν) →
    items.nodes.length ≤ fields.names.length → (∃ node ∈ items.nodes, cut node) →
    Fails (fields.readList words depth position items)
  | .done, _, _, _, ⟨nodes, _⟩, hlen, ⟨node, hmem, _⟩ => by
    rw [List.length_eq_zero_iff.mp (Nat.le_zero.mp hlen)] at hmem
    cases hmem
  | .field _ schema presence rest, words, depth, position, ⟨nodes, stop⟩, hlen,
      ⟨node, hmem, hcut⟩ => by
    cases nodes with
    | nil => cases hmem
    | cons first nodes =>
      rcases List.mem_cons.mp hmem with rfl | hmem
      · exact (schema.read_fails h depth hcut).bind _
      · have hrest := rest.readList_fails h words depth (position + 1) ⟨nodes, stop⟩
          (Nat.le_of_succ_le_succ hlen) ⟨node, hmem, hcut⟩
        exact fails_bind fun _ _ => hrest.bind _

theorem FieldSchemas.readField_fails (h : Source.Refuses ν cut) : (fields : FieldSchemas) →
    (depth : Nat) → {n : Nat} → n < fields.names.length → {node : ν} → cut node →
    (draft : fields.Draft) → Fails (fields.readField depth n node draft)
  | .done, _, _, hn, _, _, _ => absurd hn (Nat.not_lt_zero _)
  | .field name schema _ _, depth, 0, _, node, hcut, (content?, draft) => by
    cases content? with
    | some content => exact ⟨_, rfl⟩
    | none =>
      obtain ⟨e, he⟩ := schema.read_fails h depth hcut
      simp only [FieldSchemas.readField, he]
      exact ⟨e, rfl⟩
  | .field _ _ _ rest, depth, n + 1, hn, node, hcut, (content?, draft) =>
    (rest.readField_fails h depth (Nat.lt_of_succ_lt_succ hn) hcut draft).bind _

end

end DecisionService.Wire
