import Mathlib
import DecisionService.Proofs.Outcome
import DecisionService.Proofs.Value.Relay
import DecisionService.Wire.Format
/-!
# Payloads read back

A channel is a format that reads back what it writes: texts, choices, lists and records as they
were, and values as its medium changes them. Through a channel every content of a schema is read
back, unless its containers take more levels than there are.
-/
namespace DecisionService.Wire

theorem findIdx?_get {known : List String} (h : known.Nodup) (i : Fin known.length) :
    known.findIdx? (· == known.get i) = some i.val := by
  rw [List.findIdx?_eq_some_iff_getElem]
  refine ⟨i.isLt, beq_self_eq_true _, fun j hj => ?_⟩
  rw [Bool.not_eq_true, beq_eq_false_iff_ne, List.get_eq_getElem, ne_eq,
    h.getElem_inj_iff]
  exact Nat.ne_of_lt hj

theorem readPayload_value {ν : Type} [Source ν] (node : ν) :
    (readPayload node : Except Problem Value) = Source.value (Source.levels ν) node := by
  change Source.value (Source.levels ν) node >>= Except.ok = _
  cases Source.value (Source.levels ν) node <;> rfl

structure Channel (ν : Type) [Target ν] [Source ν] where
  medium : Value.Medium
  /-- What is said where there are no levels left. -/
  tooDeep : Problem
  Carries : Value → Prop
  CarriesEntries : Entries Value → Prop
  /-- The value is written as nothing at all. -/
  isNothing : Value → Bool
  isNull_null : Source.isNull (Target.null : ν) = true
  isNull_text : ∀ s, Source.isNull (Target.text s : ν) = false
  isNull_list : ∀ nodes : List ν, Source.isNull (Target.list nodes) = false
  isNull_record : ∀ members : List (String × ν), Source.isNull (Target.record members) = false
  text_text : ∀ depth s, Source.text depth (Target.text s : ν) = .ok s
  choice_text : ∀ depth (known : List String) (i : Fin known.length), known.Nodup →
    Source.choice depth known (Target.text (known.get i) : ν) = .ok i.val
  value_value : ∀ v, Carries v → ∃ node : ν, Target.value v = .ok node
    ∧ Source.isNull node = isNothing v
    ∧ ∀ depth, Source.value depth node
      = if v.height ≤ depth then .ok (v.relay medium) else .error tooDeep
  entries_entries : ∀ entries, CarriesEntries entries → ∃ node : ν,
    Target.entries entries = .ok node ∧ Source.isNull node = false
    ∧ ∀ depth, Source.entries depth node = if Value.heightOfEntries entries + 1 ≤ depth
      then .ok (Entries.ofPairs (Value.relayEntries medium entries)) else .error tooDeep
  items_list : ∀ depth (nodes : List ν), Source.items depth (Target.list nodes)
    = if depth = 0 then .error tooDeep else .ok ⟨nodes, .ok ()⟩
  fields_record : ∀ depth expected (members : List (String × ν)),
    Source.fields depth expected (Target.record members) = if depth = 0 then .error tooDeep
      else .ok (.named (members.map fun m => (.ok (.name m.1), m.2)) (.ok ()))

mutual

def Schema.height : (schema : Schema) → schema.Content → Nat
  | .value, v => Value.height v
  | .entries, entries => Value.heightOfEntries entries + 1
  | .optional _, none => 0
  | .optional schema, some content => schema.height content
  | .list schema, contents => ((contents.map fun c => schema.height c).foldr max 0) + 1
  | .record _ fields, contents => fields.height contents + 1
  | .text _, _ | .natural _ _ _, _ | .choice _ _, _ | .number, _ => 0

def FieldSchemas.height : (fields : FieldSchemas) → fields.Contents → Nat
  | .done, _ => 0
  | .field _ schema _ rest, (content, contents) =>
    max (schema.height content) (rest.height contents)

end

private theorem foldr_max_le {heights : List Nat} {n : Nat} :
    heights.foldr max 0 ≤ n ↔ ∀ h ∈ heights, h ≤ n := by
  induction heights with
  | nil => simp
  | cons h rest ih => simp [ih]

theorem height_list_le {schema : Schema} {contents : List schema.Content} {n : Nat} :
    Schema.height (.list schema) contents ≤ n + 1 ↔ ∀ c ∈ contents, schema.height c ≤ n := by
  change (contents.map fun c => schema.height c).foldr max 0 + 1 ≤ n + 1 ↔ _
  rw [Nat.add_le_add_iff_right, foldr_max_le, List.forall_mem_map]

theorem height_entries_le {entries : Entries Value} {n : Nat} :
    Schema.height .entries entries ≤ n + 1 ↔ ∀ e ∈ entries, e.2.height ≤ n := by
  change Value.heightOfEntries entries + 1 ≤ n + 1 ↔ _
  rw [Nat.add_le_add_iff_right]
  exact Value.heightOfEntries_le

theorem height_texts?_le (texts? : Option (List String)) {n : Nat} (hn : 0 < n) :
    Schema.height (.optional (.list (.text ""))) texts? ≤ n := by
  obtain ⟨n, rfl⟩ := Nat.exists_eq_add_of_le' hn
  cases texts? with
  | none => exact Nat.zero_le _
  | some texts => exact height_list_le.mpr fun _ _ => Nat.zero_le _

mutual

def Schema.relay (m : Value.Medium) : (schema : Schema) → schema.Content → schema.Content
  | .value, v => Value.relay m v
  | .entries, entries => Entries.ofPairs (Value.relayEntries m entries)
  | .optional _, none => none
  | .optional schema, some content => some (schema.relay m content)
  | .list schema, contents => contents.map fun c => schema.relay m c
  | .record _ fields, contents => fields.relay m contents
  | .text _, content | .natural _ _ _, content | .choice _ _, content | .number, content => content

def FieldSchemas.relay (m : Value.Medium) : (fields : FieldSchemas) → fields.Contents →
    fields.Contents
  | .done, _ => ()
  | .field _ schema _ rest, (content, contents) =>
    (schema.relay m content, rest.relay m contents)

end

namespace Channel

private theorem mapM_write {α ν : Type} {write : α → Except Problem ν} {P : α → ν → Prop}
    {contents : List α} (h : ∀ c ∈ contents, ∃ node, write c = .ok node ∧ P c node) :
    ∃ nodes, contents.mapM write = .ok nodes ∧ List.Forall₂ P contents nodes := by
  induction contents with
  | nil => exact ⟨[], rfl, .nil⟩
  | cons c rest ih =>
    obtain ⟨node, hw, hp⟩ := h c List.mem_cons_self
    obtain ⟨nodes, hws, hps⟩ := ih fun c hc => h c (List.mem_cons_of_mem _ hc)
    refine ⟨node :: nodes, ?_, .cons hp hps⟩
    simp only [List.mapM_cons, hw, hws, Outcome.ok_bind]
    rfl

private theorem mapM_read {α ν : Type} {read : ν → Except Problem α} {height : α → Nat}
    {relay : α → α} {depth : Nat} {e : Problem} {contents : List α} {nodes : List ν}
    (h : List.Forall₂ (fun c node => read node
      = if height c ≤ depth then .ok (relay c) else .error e) contents nodes) :
    nodes.mapM read = if (contents.map height).foldr max 0 ≤ depth
      then .ok (contents.map relay) else .error e := by
  induction h with
  | nil =>
    simp
    rfl
  | @cons c node rest nodes hc hrest ih =>
    rw [List.mapM_cons, List.map_cons, List.foldr_cons, List.map_cons]
    exact Outcome.bind_levels hc (Outcome.map_levels ih rfl)

variable {ν : Type}

def entriesOf (members : List (String × ν)) : List (Except Problem FieldName × ν) :=
  members.map fun m => (.ok (.name m.1), m.2)

private theorem entriesOf_cons (name : String) (node : ν) (members : List (String × ν)) :
    entriesOf ((name, node) :: members) = (.ok (.name name), node) :: entriesOf members := rfl

section Members

variable [Source ν]

private theorem readNamed_behind {name : String} {schema : Schema} {presence : Presence}
    {rest : FieldSchemas} {depth : Nat} {members : List (String × ν)}
    (h : ∀ m ∈ members, m.1 ≠ name) (content : Option schema.Content) (draft : rest.Draft) :
    readNamed (name :: rest.names) depth
        ((FieldSchemas.field name schema presence rest).readField depth)
        (entriesOf members) (content, draft)
      = (readNamed rest.names depth (rest.readField depth) (entriesOf members) draft).map
          (content, ·) := by
  induction members generalizing draft with
  | nil => rfl
  | cons m members ih =>
    obtain ⟨s, node⟩ := m
    have hname : (name == s) = false := beq_false_of_ne (Ne.symm (h _ List.mem_cons_self))
    have hrest := ih fun m hm => h m (List.mem_cons_of_mem _ hm)
    simp only [entriesOf_cons, readNamed, FieldName.position?, Outcome.ok_bind,
      List.findIdx?_cons, hname, Bool.false_eq_true, if_false]
    cases hposition : rest.names.findIdx? (· == s) with
    | none =>
      simp only [Option.map_none]
      cases Source.skip depth node with
      | error e => rfl
      | ok u => exact hrest draft
    | some n =>
      simp only [Option.map_some, FieldSchemas.readField]
      cases rest.readField depth n node draft with
      | error e => rfl
      | ok draft => exact hrest draft

def readMembers (fields : FieldSchemas) (depth : Nat) (members : List (String × ν)) :
    Except Problem fields.Contents := do
  let draft ← readNamed fields.names depth (fields.readField depth) (entriesOf members)
    fields.emptyDraft
  fields.finish draft

private theorem readMembers_leftOut {name : String} {schema : Schema} {presence : Presence}
    (hp : presence ≠ .required) {rest : FieldSchemas} {depth : Nat} {members : List (String × ν)}
    (h : ∀ m ∈ members, m.1 ≠ name) :
    readMembers (.field name schema presence rest) depth members
      = (readMembers rest depth members).map (schema.standard, ·) := by
  unfold readMembers
  rw [FieldSchemas.names, FieldSchemas.emptyDraft, readNamed_behind h]
  cases readNamed rest.names depth (rest.readField depth) (entriesOf members) rest.emptyDraft with
  | error e => rfl
  | ok draft =>
    cases presence with
    | required => exact absurd rfl hp
    | defaulted | omittable =>
      change (do return (schema.standard, ← rest.finish draft)) = (rest.finish draft).map _
      cases rest.finish draft <;> rfl

private theorem readMembers_written {name : String} {schema : Schema} {presence : Presence}
    {rest : FieldSchemas} {depth : Nat} {node : ν} {members : List (String × ν)}
    (h : ∀ m ∈ members, m.1 ≠ name) :
    readMembers (.field name schema presence rest) depth ((name, node) :: members)
      = (do
        let content ← schema.read depth node
        (readMembers rest depth members).map (content, ·)) := by
  have hfirst : readNamed (name :: rest.names) depth
        ((FieldSchemas.field name schema presence rest).readField depth)
        (entriesOf ((name, node) :: members)) (none, rest.emptyDraft)
      = (do
        let content ← schema.read depth node
        readNamed (name :: rest.names) depth
          ((FieldSchemas.field name schema presence rest).readField depth)
          (entriesOf members) (some content, rest.emptyDraft)) := by
    simp only [entriesOf_cons, readNamed, FieldName.position?, Outcome.ok_bind, List.findIdx?_cons,
      beq_self_eq_true, if_true, FieldSchemas.readField]
    cases schema.read depth node <;> rfl
  unfold readMembers
  rw [FieldSchemas.names, FieldSchemas.emptyDraft, hfirst]
  cases schema.read depth node with
  | error e => rfl
  | ok content =>
    simp only [Outcome.ok_bind]
    rw [readNamed_behind h]
    cases readNamed rest.names depth (rest.readField depth) (entriesOf members) rest.emptyDraft with
    | error e => rfl
    | ok draft =>
      change (do return (content, ← rest.finish draft)) = (rest.finish draft).map _
      cases rest.finish draft <;> rfl

end Members

variable [Target ν] [Source ν]

def writesNothing (ch : Channel ν) : (schema : Schema) → schema.Content → Bool
  | .value, v => ch.isNothing v
  | .optional _, none => true
  | .optional schema, some content => ch.writesNothing schema content
  | _, _ => false

mutual

/-- The channel carries a content: names tell apart what they should, an optional content that is
there is not written as nothing, and so on down to the values. -/
def Conveys (ch : Channel ν) : (schema : Schema) → schema.Content → Prop
  | .text _, _ => True
  | .choice first others, _ => (first :: others).Nodup
  | .value, v => ch.Carries v
  | .entries, entries => ch.CarriesEntries entries
  | .optional _, none => True
  | .optional schema, some content =>
    ch.Conveys schema content ∧ ch.writesNothing schema content = false
  | .list schema, (contents : List schema.Content) => ∀ c ∈ contents, ch.Conveys schema c
  | .record _ fields, contents => fields.names.Nodup ∧ ch.ConveysFields fields contents
  | .natural _ _ _, _ | .number, _ => False

def ConveysFields (ch : Channel ν) : (fields : FieldSchemas) → fields.Contents → Prop
  | .done, _ => True
  | .field _ schema _ rest, (content, contents) =>
    ch.Conveys schema content ∧ ch.ConveysFields rest contents

end

private theorem standard_of_leftOut {presence : Presence} {schema : Schema}
    {content : schema.Content} (h : leftOut presence schema content = true)
    (m : Value.Medium) : presence ≠ .required ∧ schema.standard = schema.relay m content
      ∧ schema.height content = 0 := by
  rw [leftOut, Bool.and_eq_true, beq_iff_eq] at h
  obtain ⟨rfl, hempty⟩ := h
  refine ⟨by decide, ?_⟩
  cases schema with
  | optional schema =>
    cases content with
    | none => exact ⟨rfl, rfl⟩
    | some content => cases hempty
  | _ => cases hempty

mutual

/-- Every content that a channel conveys is written, and its node is read back exactly when there
are levels enough. -/
theorem read_write (ch : Channel ν) : (schema : Schema) → (content : schema.Content) →
    ch.Conveys schema content → ∃ node : ν, schema.write content = .ok node
      ∧ Source.isNull node = ch.writesNothing schema content
      ∧ ∀ depth, schema.read depth node = if schema.height content ≤ depth
        then .ok (schema.relay ch.medium content) else .error ch.tooDeep
  | .text _, s, _ =>
    ⟨Target.text s, rfl, ch.isNull_text s, fun depth =>
      (ch.text_text depth s).trans (if_pos (Nat.zero_le depth)).symm⟩
  | .choice first others, n, h => by
    refine ⟨Target.text ((first :: others).get n), rfl, ch.isNull_text _, fun depth => ?_⟩
    have hread : (Schema.choice first others).read depth
        (Target.text ((first :: others).get n) : ν) = .ok n := by
      rw [Schema.read, ch.choice_text depth (first :: others) n h, Outcome.ok_bind]
      exact congrArg Except.ok (dif_pos n.isLt)
    exact hread.trans (if_pos (Nat.zero_le depth)).symm
  | .value, v, h => ch.value_value v h
  | .entries, entries, h => ch.entries_entries entries h
  | .optional schema, none, _ => by
    refine ⟨Target.null, rfl, ch.isNull_null, fun depth => ?_⟩
    have hread : (Schema.optional schema).read depth (Target.null : ν) = .ok none := by
      rw [Schema.read, ch.isNull_null, if_pos rfl]
    exact hread.trans (if_pos (Nat.zero_le depth)).symm
  | .optional schema, some content, ⟨h, hn⟩ => by
    obtain ⟨node, hw, hnull, hread⟩ := read_write ch schema content h
    refine ⟨node, hw, hnull, fun depth => ?_⟩
    rw [hn] at hnull
    rw [Schema.read, hnull, hread, Schema.height]
    by_cases hd : schema.height content ≤ depth
    · rw [if_pos hd, if_pos hd]
      rfl
    · rw [if_neg hd, if_neg hd]
      rfl
  | .list schema, contents, h => by
    obtain ⟨nodes, hw, hnodes⟩ := mapM_write fun c hc => read_write ch schema c (h c hc)
    refine ⟨Target.list nodes, ?_, ch.isNull_list nodes, fun depth => ?_⟩
    · rw [Schema.write, hw]
      rfl
    rw [Schema.read, ch.items_list]
    cases depth with
    | zero => rfl
    | succ depth =>
      have hread := mapM_read (hnodes.imp fun c node hc => hc.2 depth)
      rw [if_neg (Nat.succ_ne_zero depth), Outcome.ok_bind, Items.readAll, Nat.add_sub_cancel,
        Schema.height]
      simp only [Nat.add_le_add_iff_right]
      exact Outcome.map_levels hread rfl
  | .record name fields, contents, ⟨hnames, h⟩ => by
    obtain ⟨members, hw, -, hread⟩ := readMembers_writeAll ch fields contents hnames h
    refine ⟨Target.record members, ?_, ch.isNull_record members, fun depth => ?_⟩
    · rw [Schema.write, hw]
      rfl
    rw [Schema.read, ch.fields_record]
    cases depth with
    | zero => rfl
    | succ depth =>
      rw [if_neg (Nat.succ_ne_zero depth), Outcome.ok_bind]
      rw [Schema.height]
      simp only [Nat.add_le_add_iff_right]
      exact hread depth
  | .natural _ _ _, _, h | .number, _, h => h.elim

theorem readMembers_writeAll (ch : Channel ν) : (fields : FieldSchemas) →
    (contents : fields.Contents) → fields.names.Nodup → ch.ConveysFields fields contents →
    ∃ members : List (String × ν), fields.writeAll contents = .ok members
      ∧ (∀ m ∈ members, m.1 ∈ fields.names)
      ∧ ∀ depth, readMembers fields depth members = if fields.height contents ≤ depth
        then .ok (fields.relay ch.medium contents) else .error ch.tooDeep
  | .done, contents, _, _ => ⟨[], rfl, by simp, fun depth => rfl⟩
  | .field name schema presence rest, (content, contents), hn, ⟨h, hrest⟩ => by
    obtain ⟨hname, hnames⟩ := List.nodup_cons.mp hn
    obtain ⟨members, hws, hin, hreads⟩ := readMembers_writeAll ch rest contents hnames hrest
    have hother : ∀ m ∈ members, m.1 ≠ name := fun m hm heq => hname (heq ▸ hin m hm)
    cases hl : leftOut presence schema content with
    | true =>
      obtain ⟨hp, hstandard, hheight⟩ := standard_of_leftOut hl ch.medium
      refine ⟨members, ?_, fun m hm => List.mem_cons_of_mem _ (hin m hm), fun depth => ?_⟩
      · rw [FieldSchemas.writeAll, hl, if_pos rfl, hws]
      rw [readMembers_leftOut hp hother, hreads, FieldSchemas.height, hheight, Nat.zero_max,
        hstandard]
      split <;> rfl
    | false =>
      obtain ⟨node, hw, -, hread⟩ := read_write ch schema content h
      refine ⟨(name, node) :: members, ?_, ?_, fun depth => ?_⟩
      · rw [FieldSchemas.writeAll, hl, if_neg Bool.false_ne_true, hw, Outcome.ok_bind, hws]
        rfl
      · intro m hm
        rcases List.mem_cons.mp hm with rfl | hm
        · exact List.mem_cons_self
        · exact List.mem_cons_of_mem _ (hin m hm)
      rw [readMembers_written hother, FieldSchemas.height]
      refine Outcome.bind_levels (hread depth) ?_
      rw [hreads]
      split <;> rfl

end

end Channel

/-- A property of nodes that passes from the parts of a node to the node. -/
structure Inherited {ν : Type} [Target ν] (P : ν → Prop) : Prop where
  null : P Target.null
  text : ∀ s, P (Target.text s)
  value : ∀ v node, Target.value v = .ok node → P node
  entries : ∀ entries node, Target.entries entries = .ok node → P node
  list : ∀ nodes, (∀ node ∈ nodes, P node) → P (Target.list nodes)
  record : ∀ members : List (String × ν), (∀ m ∈ members, P m.2) → P (Target.record members)

namespace Inherited

variable {ν μ : Type} [Target ν] [Target μ] [Source μ] {P : ν → Prop}

mutual

/-- What passes from parts to the whole holds of the node of every content that is conveyed, by a
channel of whatever nodes. -/
theorem write (hP : Inherited P) (ch : Channel μ) : (schema : Schema) →
    (content : schema.Content) → ch.Conveys schema content → (node : ν) →
    schema.write content = .ok node → P node
  | .text _, s, _, _, hw => by
    cases hw
    exact hP.text s
  | .choice _ _, n, _, _, hw => by
    cases hw
    exact hP.text _
  | .value, v, _, node, hw => hP.value v node hw
  | .entries, entries, _, node, hw => hP.entries entries node hw
  | .optional _, none, _, _, hw => by
    cases hw
    exact hP.null
  | .optional schema, some content, h, node, hw => write hP ch schema content h.1 node hw
  | .list schema, contents, h, _, hw => by
    obtain ⟨nodes, hnodes, hw⟩ := Outcome.bind_eq_ok.mp hw
    cases hw
    exact hP.list nodes
      (Outcome.mapM_all (fun c hc node => write hP ch schema c (h c hc) node) hnodes)
  | .record _ fields, contents, h, _, hw => by
    obtain ⟨members, hmembers, hw⟩ := Outcome.bind_eq_ok.mp hw
    cases hw
    exact hP.record members (writeAll hP ch fields contents h.2 members hmembers)
  | .natural _ _ _, _, h, _, _ | .number, _, h, _, _ => h.elim

theorem writeAll (hP : Inherited P) (ch : Channel μ) : (fields : FieldSchemas) →
    (contents : fields.Contents) → ch.ConveysFields fields contents →
    (members : List (String × ν)) → fields.writeAll contents = .ok members →
    ∀ m ∈ members, P m.2
  | .done, _, _, _, hw => by
    cases hw
    simp
  | .field name schema presence rest, (content, contents), h, members, hw => by
    rw [FieldSchemas.writeAll] at hw
    split at hw
    · exact writeAll hP ch rest contents h.2 members hw
    · obtain ⟨node, hnode, hw⟩ := Outcome.bind_eq_ok.mp hw
      obtain ⟨others, hothers, hw⟩ := Outcome.bind_eq_ok.mp hw
      cases hw
      intro m hm
      rcases List.mem_cons.mp hm with rfl | hm
      · exact write hP ch schema content h.1 node hnode
      · exact writeAll hP ch rest contents h.2 others hothers m hm

end

end Inherited

namespace Payload

variable {α : Type} [Payload α]

def height (a : α) : Nat :=
  (schema α).height (content a)

def relay (m : Value.Medium) (a : α) : α :=
  ofContent ((schema α).relay m (content a))

end Payload

def Channel.ConveysPayload {α ν : Type} [Payload α] [Target ν] [Source ν] (ch : Channel ν) (a : α) :
    Prop :=
  ch.Conveys (Payload.schema α) (Payload.content a)

theorem Channel.readPayload_writePayload {α ν : Type} [Payload α] [Target ν] [Source ν]
    (ch : Channel ν) {a : α} (h : ch.ConveysPayload a) : ∃ node : ν, writePayload a = .ok node
      ∧ readPayload node = if Payload.height a ≤ Source.levels ν
        then .ok (Payload.relay ch.medium a) else .error ch.tooDeep := by
  obtain ⟨node, hw, -, hread⟩ := ch.read_write (Payload.schema α) (Payload.content a) h
  refine ⟨node, hw, ?_⟩
  rw [readPayload, hread, Payload.height]
  split <;> rfl

end DecisionService.Wire
