import Mathlib
import DecisionService.Proofs.Json.Value
import DecisionService.Proofs.Outcome
import DecisionService.Wire.Format
/-!
# What values are read

A property that a source gives to every value it reads is one of all values in a payload, wherever
they stand in it. JSON gives trees of untyped numbers, so there are no sets and no numeric texts in
what is read from it.
-/
namespace DecisionService

namespace Wire

mutual

def Schema.All (p : Value → Prop) : (schema : Schema) → schema.Content → Prop
  | .value, v => p v
  | .entries, entries => p (.object entries)
  | .optional _, none => True
  | .optional schema, some content => schema.All p content
  | .list schema, (contents : List schema.Content) => ∀ c ∈ contents, schema.All p c
  | .record _ fields, contents => fields.All p contents
  | .text _, _ | .natural _ _ _, _ | .choice _ _, _ | .number, _ => True

def FieldSchemas.All (p : Value → Prop) : (fields : FieldSchemas) → fields.Contents → Prop
  | .done, _ => True
  | .field _ schema _ rest, (content, contents) => schema.All p content ∧ rest.All p contents

end

def FieldSchemas.AllDraft (p : Value → Prop) : (fields : FieldSchemas) → fields.Draft → Prop
  | .done, _ => True
  | .field _ schema _ rest, (content?, draft) =>
    (∀ content, content? = some content → schema.All p content) ∧ rest.AllDraft p draft

/-- A property of whatever value a source reads, and of what stands in for a value. -/
structure Source.Gives (ν : Type) [Source ν] (p : Value → Prop) : Prop where
  value : ∀ {depth : Nat} {node : ν} {v}, Source.value depth node = .ok v → p v
  entries : ∀ {depth : Nat} {node : ν} {entries},
    Source.entries depth node = .ok entries → p (.object entries)
  null : p .null
  empty : p (.object [])

variable {ν : Type} [Source ν] {p : Value → Prop}

mutual

theorem Schema.all_standard (h : Source.Gives ν p) : (schema : Schema) →
    schema.All p schema.standard
  | .value => h.null
  | .entries => h.empty
  | .list _ => List.forall_mem_nil _
  | .record _ fields => fields.all_standards h
  | .optional _ | .text _ | .natural _ _ _ | .choice _ _ | .number => trivial

theorem FieldSchemas.all_standards (h : Source.Gives ν p) : (fields : FieldSchemas) →
    fields.All p fields.standards
  | .done => trivial
  | .field _ schema _ rest => ⟨schema.all_standard h, rest.all_standards h⟩

end

theorem FieldSchemas.all_emptyDraft : (fields : FieldSchemas) → fields.AllDraft p fields.emptyDraft
  | .done => trivial
  | .field _ _ _ rest => ⟨nofun, rest.all_emptyDraft⟩

theorem FieldSchemas.all_finish (h : Source.Gives ν p) : (fields : FieldSchemas) →
    {draft : fields.Draft} → {contents : fields.Contents} → fields.AllDraft p draft →
    fields.finish draft = .ok contents → fields.All p contents
  | .done, _, _, _, _ => trivial
  | .field name schema presence rest, (some found, draft), contents, hdraft, hf => by
    obtain ⟨content, hcontent, hf⟩ := Outcome.bind_eq_ok.mp hf
    obtain ⟨others, hrest, hf⟩ := Outcome.bind_eq_ok.mp hf
    cases hcontent
    cases hf
    exact ⟨hdraft.1 found rfl, rest.all_finish h hdraft.2 hrest⟩
  | .field name schema presence rest, (none, draft), contents, hdraft, hf => by
    cases presence with
    | required => cases hf
    | defaulted | omittable =>
      obtain ⟨content, hcontent, hf⟩ := Outcome.bind_eq_ok.mp hf
      obtain ⟨others, hrest, hf⟩ := Outcome.bind_eq_ok.mp hf
      cases hcontent
      cases hf
      exact ⟨schema.all_standard h, rest.all_finish h hdraft.2 hrest⟩

/-- What holds of a draft and is kept by every field holds when all names have been read. -/
theorem readNamed_induction {δ : Type} {names : List String} {depth : Nat}
    {readField : Nat → ν → δ → Except Problem δ} {q : δ → Prop}
    (hkept : ∀ {n node draft draft'}, q draft → readField n node draft = .ok draft' → q draft')
    {members : List (Except Problem FieldName × ν)} {draft result : δ} (hdraft : q draft)
    (hr : readNamed names depth readField members draft = .ok result) : q result := by
  induction members generalizing draft with
  | nil =>
    cases hr
    exact hdraft
  | cons member rest ih =>
    obtain ⟨name, node⟩ := member
    obtain ⟨field, -, hr⟩ := Outcome.bind_eq_ok.mp hr
    dsimp only at hr
    split at hr
    · obtain ⟨-, -, hr⟩ := Outcome.bind_eq_ok.mp hr
      exact ih hdraft hr
    · obtain ⟨next, hnext, hr⟩ := Outcome.bind_eq_ok.mp hr
      exact ih (hkept hdraft hnext) hr

mutual

theorem Schema.all_read (h : Source.Gives ν p) : (schema : Schema) → {depth : Nat} → {node : ν} →
    {content : schema.Content} → schema.read depth node = .ok content → schema.All p content
  | .value, _, _, _, hr => h.value hr
  | .entries, _, _, _, hr => h.entries hr
  | .text _, _, _, _, _ | .natural _ _ _, _, _, _, _ | .choice _ _, _, _, _, _
  | .number, _, _, _, _ => trivial
  | .optional schema, depth, node, content?, hr => by
    rw [Schema.read] at hr
    split at hr
    · cases hr
      trivial
    · split at hr
      · next content hcontent =>
        cases hr
        exact schema.all_read h hcontent
      · cases hr
  | .list schema, depth, node, contents, hr => by
    obtain ⟨items, -, hr⟩ := Outcome.bind_eq_ok.mp hr
    obtain ⟨results, hresults, hr⟩ := Outcome.bind_eq_ok.mp hr
    obtain ⟨-, -, hr⟩ := Outcome.bind_eq_ok.mp hr
    cases hr
    exact Outcome.mapM_all (fun _ _ c hc => schema.all_read h hc) hresults
  | .record name fields, depth, node, contents, hr => by
    obtain ⟨given, -, hr⟩ := Outcome.bind_eq_ok.mp hr
    cases given with
    | positional items surplus =>
      obtain ⟨read, hread, hr⟩ := Outcome.bind_eq_ok.mp hr
      obtain ⟨-, -, hr⟩ := Outcome.bind_eq_ok.mp hr
      cases hr
      exact fields.all_readList h hread
    | named entries stop =>
      obtain ⟨draft, hdraft, hr⟩ := Outcome.bind_eq_ok.mp hr
      obtain ⟨-, -, hr⟩ := Outcome.bind_eq_ok.mp hr
      refine fields.all_finish h ?_ hr
      exact readNamed_induction (fun hd hf => fields.all_readField h hd hf) fields.all_emptyDraft
        hdraft

theorem FieldSchemas.all_readList (h : Source.Gives ν p) : (fields : FieldSchemas) →
    {words : String} → {depth position : Nat} → {items : Items ν} → {contents : fields.Contents} →
    fields.readList words depth position items = .ok contents → fields.All p contents
  | .done, _, _, _, _, _, _ => trivial
  | .field name schema presence rest, words, depth, position, ⟨nodes, stop⟩, contents, hr => by
    cases nodes with
    | cons node nodes =>
      obtain ⟨content, hcontent, hr⟩ := Outcome.bind_eq_ok.mp hr
      obtain ⟨others, hothers, hr⟩ := Outcome.bind_eq_ok.mp hr
      cases hr
      exact ⟨schema.all_read h hcontent, rest.all_readList h hothers⟩
    | nil =>
      obtain ⟨-, -, hr⟩ := Outcome.bind_eq_ok.mp hr
      cases presence with
      | required => cases hr
      | defaulted | omittable =>
        obtain ⟨others, hothers, hr⟩ := Outcome.bind_eq_ok.mp hr
        cases hr
        exact ⟨schema.all_standard h, rest.all_readList h hothers⟩

theorem FieldSchemas.all_readField (h : Source.Gives ν p) : (fields : FieldSchemas) →
    {depth n : Nat} → {node : ν} → {draft draft' : fields.Draft} → fields.AllDraft p draft →
    fields.readField depth n node draft = .ok draft' → fields.AllDraft p draft'
  | .done, _, _, _, _, _, _, _ => trivial
  | .field name schema presence rest, depth, 0, node, (some _, draft), draft', _, hr => by
    cases hr
  | .field name schema presence rest, depth, 0, node, (none, draft), draft', hd, hr => by
    simp only [FieldSchemas.readField] at hr
    split at hr
    · next content hcontent =>
      cases hr
      refine ⟨?_, hd.2⟩
      rintro _ ⟨⟩
      exact schema.all_read h hcontent
    · cases hr
  | .field name schema presence rest, depth, n + 1, node, (content?, draft), draft', hd, hr => by
    obtain ⟨others, hothers, hr⟩ := Outcome.bind_eq_ok.mp hr
    cases hr
    exact ⟨hd.1, rest.all_readField h hd.2 hothers⟩

end

end Wire

open Wire

theorem Json.Doc.gives : Source.Gives Json.Doc (Value.Each IsGiven) where
  value hv := each_value hv
  entries {depth doc entries} he := by
    change entriesOf depth doc = .ok entries at he
    unfold entriesOf at he
    split at he
    · split at he
      · cases he
      · obtain ⟨members, hmembers, he⟩ := Outcome.bind_eq_ok.mp he
        obtain ⟨-, -, he⟩ := Outcome.bind_eq_ok.mp he
        cases he
        obtain ⟨hnames, hmembers⟩ := each_members hmembers List.nodup_nil trivial
        exact ⟨⟨hnames, trivial⟩, hmembers⟩
    · split at he <;> cases he
    · rw [mismatch] at he
      obtain ⟨found, hfound, he⟩ := Outcome.bind_eq_ok.mp he
      cases he
  null := ⟨trivial, trivial⟩
  empty := ⟨⟨List.nodup_nil, trivial⟩, trivial⟩

theorem Format.all_given {α : Type} [Payload α] {bytes : Bytes} {a : α}
    (h : Format.json.unmarshal bytes = .ok a) :
    ∃ content, a = Payload.ofContent content
      ∧ (Payload.schema α).All (Value.Each Json.IsGiven) content := by
  obtain ⟨b, hb, hread⟩ := Outcome.bind_eq_ok.mp (Outcome.mapError_eq_ok.mp h)
  obtain ⟨-, -, heq⟩ := Outcome.bind_eq_ok.mp hread
  cases heq
  obtain ⟨content, hcontent, hb⟩ := Outcome.bind_eq_ok.mp hb
  cases hb
  exact ⟨content, rfl, Schema.all_read Json.Doc.gives _ hcontent⟩

end DecisionService
