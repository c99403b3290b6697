import Mathlib
import DecisionService.Json.Source
import DecisionService.Proofs.Wire.Refused
/-!
# Documents that are cut short

Where scanning a text leaves nothing to go on with, the document breaks off somewhere, and then
nothing can be read from it: every reader comes to the place where it does.
-/
namespace DecisionService.Json

open Wire Outcome

namespace Stop

variable (breach : Breach)

private theorem read_fails : Fails (broken breach).read :=
  ⟨_, rfl⟩

private theorem skip_fails : Fails (broken breach).skip :=
  ⟨_, rfl⟩

private theorem endList_fails : Fails (broken breach).endList := by
  unfold endList
  dsimp only
  split <;> exact ⟨_, rfl⟩

private theorem endObject_fails : Fails (broken breach).endObject := by
  unfold endObject
  dsimp only
  split <;> exact ⟨_, rfl⟩

private theorem endVariant_fails : Fails (broken breach).endVariant := by
  unfold endVariant
  dsimp only
  split <;> exact ⟨_, rfl⟩

end Stop

namespace Doc

/-- The document breaks off, itself or in one of its parts. -/
inductive CutShort : Doc → Prop
  | missing : CutShort missing
  | broken (breach : Breach) : CutShort (broken breach)
  | keyless (first : Doc) : CutShort (keyless first)
  | listEnd (items : List Doc) (breach : Breach) : CutShort (array items (.broken breach))
  | item {items : List Doc} {item : Doc} (stop : Stop) (hmem : item ∈ items)
    (hcut : CutShort item) : CutShort (array items stop)
  | objectEnd (members : List (Except Flaw String × Doc)) (breach : Breach) :
    CutShort (object members (.broken breach))
  | member {members : List (Except Flaw String × Doc)} {member : Except Flaw String × Doc}
    (stop : Stop) (hmem : member ∈ members) (hcut : CutShort member.2) :
    CutShort (object members stop)

namespace CutShort

theorem of_array {items : List Doc} {stop : Stop} (h : (array items stop).CutShort) :
    (∃ item ∈ items, item.CutShort) ∨ ∃ breach, stop = .broken breach := by
  cases h with
  | listEnd _ breach => exact .inr ⟨breach, rfl⟩
  | item _ hmem hcut => exact .inl ⟨_, hmem, hcut⟩

theorem of_object {members : List (Except Flaw String × Doc)} {stop : Stop}
    (h : (object members stop).CutShort) :
    (∃ member ∈ members, member.2.CutShort) ∨ ∃ breach, stop = .broken breach := by
  cases h with
  | objectEnd _ breach => exact .inr ⟨breach, rfl⟩
  | member _ hmem hcut => exact .inl ⟨_, hmem, hcut⟩

theorem cons_item {items : List Doc} {stop : Stop} (h : (array items stop).CutShort)
    (first : Doc) : (array (first :: items) stop).CutShort := by
  cases h with
  | listEnd _ breach => exact listEnd _ breach
  | item stop hmem hcut => exact item stop (List.mem_cons_of_mem first hmem) hcut

theorem cons_member {members : List (Except Flaw String × Doc)} {stop : Stop}
    (h : (object members stop).CutShort) (first : Except Flaw String × Doc) :
    (object (first :: members) stop).CutShort := by
  cases h with
  | objectEnd _ breach => exact objectEnd _ breach
  | member stop hmem hcut => exact member stop (List.mem_cons_of_mem first hmem) hcut

end CutShort

/-! ## Scanning -/

/-- Where nothing is left to go on with, the document breaks off. -/
def Ended (scanned : Scanned) : Prop :=
  scanned.2 = none → scanned.1.CutShort

private theorem Ended.ite {test : Prop} [Decidable test] {x y : Scanned} (hx : Ended x)
    (hy : Ended y) : Ended (if test then x else y) := by
  split
  · exact hx
  · exact hy

private theorem ended_scanWord (doc : Doc) (word : List UInt8) (bytes : Bytes) :
    Ended (scanWord doc word bytes) := by
  induction word generalizing bytes with
  | nil => exact nofun
  | cons w word ih =>
    cases bytes with
    | nil => exact fun _ => .broken _
    | cons b rest =>
      rw [scanWord]
      split
      · exact ih rest
      · exact fun _ => .broken _

private theorem ended_scanNumber (bytes : Bytes) : Ended (scanNumber bytes) := by
  unfold scanNumber
  split
  · exact nofun
  · exact fun _ => .broken _

private theorem ended_scanText (bytes : Bytes) : Ended (scanText bytes) := by
  unfold scanText
  split
  · exact nofun
  · exact fun _ => .broken _

mutual

/-- A document that is not followed by anything, not even by the end of the text, breaks off. -/
theorem ended_scan : (fuel : Nat) → (bytes : Bytes) → Ended (scan fuel bytes)
  | 0, _ => fun _ => .missing
  | fuel + 1, bytes => by
    rw [scan]
    split
    · exact fun _ => .missing
    · refine .ite (ended_scanWord _ _ _) <| .ite (ended_scanWord _ _ _) <|
        .ite (ended_scanWord _ _ _) <| .ite (ended_scanNumber _) <| .ite (ended_scanText _) <|
        .ite ?_ <| .ite ?_ fun _ => .broken _
      · split
        · exact fun _ => .listEnd _ _
        · exact .ite nofun (ended_scanItems fuel _)
      · split
        · exact fun _ => .objectEnd _ _
        · exact .ite nofun (.ite (ended_scanMembers fuel _) fun _ => .keyless _)

theorem ended_scanItems : (fuel : Nat) → (bytes : Bytes) →
    Ended (array (scanItems fuel bytes).1 (scanItems fuel bytes).2.1, (scanItems fuel bytes).2.2)
  | 0, _ => fun _ => .listEnd _ _
  | fuel + 1, bytes => by
    have hitem := ended_scan fuel bytes
    rw [scanItems]
    split
    · next item hscan =>
      rw [hscan] at hitem
      exact fun _ => .item _ List.mem_cons_self (hitem rfl)
    · split
      · exact fun _ => .listEnd _ _
      · split_ifs
        · exact nofun
        · split
          · exact fun _ => .listEnd _ _
          · split_ifs
            · exact fun _ => .listEnd _ _
            · exact fun hnone => (ended_scanItems fuel _ hnone).cons_item _
        · exact fun _ => .listEnd _ _

theorem ended_scanValue : (fuel : Nat) → (bytes : Bytes) → Ended (scanValue fuel bytes)
  | 0, _ => fun _ => .broken _
  | fuel + 1, bytes => by
    rw [scanValue]
    split
    · exact fun _ => .broken _
    · split
      · exact ended_scan fuel _
      · exact fun _ => .broken _

theorem ended_scanMembers : (fuel : Nat) → (bytes : Bytes) →
    Ended (object (scanMembers fuel bytes).1 (scanMembers fuel bytes).2.1,
      (scanMembers fuel bytes).2.2)
  | 0, _ => fun _ => .objectEnd _ _
  | fuel + 1, bytes => by
    rw [scanMembers]
    split
    · exact fun _ => .objectEnd _ _
    · next rest _ =>
      have hvalue := ended_scanValue fuel rest
      dsimp only
      split
      · next value hscan =>
        rw [hscan] at hvalue
        exact fun _ => .member _ List.mem_cons_self (hvalue rfl)
      · split
        · exact fun _ => .objectEnd _ _
        · split_ifs
          · exact nofun
          · split
            · exact fun _ => .objectEnd _ _
            · split_ifs
              · exact fun hnone => (ended_scanMembers fuel _ hnone).cons_member _
              · exact fun _ => .objectEnd _ _
              · exact fun _ => .objectEnd _ _
          · exact fun _ => .objectEnd _ _

end

theorem ended_ofBytes (bytes : Bytes) : Ended (ofBytes bytes) :=
  ended_scan _ bytes

/-! ## Reading -/

private theorem mismatch_fails {α : Type} (expected : String) (doc : Doc) :
    Fails (doc.mismatch expected : Except Problem α) :=
  fails_bind fun _ _ => ⟨_, rfl⟩

private theorem values_fails {depth : Nat} {items : List Doc} {item : Doc} (hmem : item ∈ items)
    (h : Fails (value depth item)) : Fails (values depth items) := by
  induction items with
  | nil => cases hmem
  | cons first rest ih =>
    rw [values]
    rcases List.mem_cons.mp hmem with rfl | hmem
    · exact h.bind _
    · exact fails_bind fun _ _ => (ih hmem).bind _

private theorem members_fails {depth : Nat} {given : List (Except Flaw String × Doc)}
    {member : Except Flaw String × Doc} (hmem : member ∈ given)
    (h : Fails (value depth member.2)) (entries : Entries Value) :
    Fails (members depth given entries) := by
  induction given generalizing entries with
  | nil => cases hmem
  | cons first rest ih =>
    obtain ⟨name, item⟩ := first
    rw [members]
    refine fails_bind fun name _ => ?_
    rcases List.mem_cons.mp hmem with rfl | hmem
    · exact h.bind _
    · exact fails_bind fun v _ => ih hmem _

private theorem skipItems_fails {items : List Doc} {item : Doc} (hmem : item ∈ items)
    (h : Fails (skip item)) : Fails (skipItems items) := by
  induction items with
  | nil => cases hmem
  | cons first rest ih =>
    rw [skipItems]
    rcases List.mem_cons.mp hmem with rfl | hmem
    · exact h.bind _
    · exact fails_bind fun _ _ => ih hmem

private theorem skipMembers_fails {given : List (Except Flaw String × Doc)}
    {member : Except Flaw String × Doc} (hmem : member ∈ given) (h : Fails (skip member.2)) :
    Fails (skipMembers given) := by
  induction given with
  | nil => cases hmem
  | cons first rest ih =>
    rw [skipMembers]
    rcases List.mem_cons.mp hmem with rfl | hmem
    · exact h.bind _
    · exact fails_bind fun _ _ => ih hmem

private theorem exists_of_announcement? {given rest : List (Except Flaw String × Doc)}
    {literal : Doc} (h : announcement? given = some (literal, rest)) :
    ∃ name, given = (name, literal) :: rest := by
  unfold announcement? at h
  split at h
  · split at h
    · cases h
      exact ⟨_, rfl⟩
    · cases h
  · cases h

namespace CutShort

variable {doc : Doc}

theorem text_fails (h : doc.CutShort) : Fails doc.text := by
  cases h <;> exact mismatch_fails _ _

theorem nothing_fails (h : doc.CutShort) : Fails doc.nothing := by
  cases h <;> exact mismatch_fails _ _

/-- An object that breaks off announces no number: nothing may stand behind its literal. -/
private theorem announced_fails {name : Except Flaw String} {literal : Doc}
    {rest : List (Except Flaw String × Doc)} {stop : Stop}
    (h : (object ((name, literal) :: rest) stop).CutShort) (expected : String) :
    Fails (announced expected literal rest stop) := by
  refine fails_bind fun text htext => fails_bind fun n _ => ?_
  cases rest with
  | cons member rest => exact ⟨_, rfl⟩
  | nil =>
    rcases h.of_object with ⟨member, hmem, hcut⟩ | ⟨breach, rfl⟩
    · cases List.mem_singleton.mp hmem
      exact absurd htext (hcut.text_fails.ne_ok text)
    · exact (Stop.endObject_fails breach).bind _

theorem value_fails (h : doc.CutShort) (depth : Nat) : Fails (value depth doc) := by
  induction depth generalizing doc with
  | zero => cases h <;> exact ⟨_, rfl⟩
  | succ depth ih =>
    cases doc with
    | array items stop =>
      rcases h.of_array with ⟨item, hmem, hcut⟩ | ⟨breach, rfl⟩
      · exact (values_fails hmem (ih hcut)).bind _
      · exact fails_bind fun _ _ => (Stop.read_fails breach).bind _
    | object given stop =>
      rw [value]
      split
      · next literal rest hgiven =>
        obtain ⟨name, rfl⟩ := exists_of_announcement? hgiven
        exact (h.announced_fails _).map _
      · rcases h.of_object with ⟨member, hmem, hcut⟩ | ⟨breach, rfl⟩
        · exact (members_fails hmem (ih hcut) _).bind _
        · exact fails_bind fun _ _ => (Stop.read_fails breach).bind _
    | missing | broken breach | keyless first => exact ⟨_, rfl⟩
    | null | bool b | number l | string text => cases h

theorem skip_fails (h : doc.CutShort) : Fails (skip doc) := by
  induction h with
  | missing | broken breach | keyless first => exact ⟨_, rfl⟩
  | listEnd items breach => exact fails_bind fun _ _ => Stop.skip_fails breach
  | item stop hmem hcut ih => exact (skipItems_fails hmem ih).bind _
  | objectEnd members breach => exact fails_bind fun _ _ => Stop.skip_fails breach
  | member stop hmem hcut ih => exact (skipMembers_fails hmem ih).bind _

theorem numberOf_fails (h : doc.CutShort) (depth : Nat) : Fails (numberOf depth doc) := by
  cases doc with
  | array items stop =>
    rw [numberOf]
    split <;> exact ⟨_, rfl⟩
  | object given stop =>
    unfold numberOf
    dsimp only
    split
    · exact ⟨_, rfl⟩
    · split
      · exact fails_bind fun _ _ => ⟨_, rfl⟩
      · refine fails_bind fun name _ => ?_
        split
        · exact h.announced_fails _
        · exact ⟨_, rfl⟩
  | keyless first =>
    rw [numberOf]
    split <;> exact ⟨_, rfl⟩
  | missing | broken breach => exact mismatch_fails _ _
  | null | bool b | number l | string text => cases h

theorem entriesOf_fails (h : doc.CutShort) (depth : Nat) : Fails (entriesOf depth doc) := by
  cases doc with
  | object given stop =>
    rw [entriesOf]
    split
    · exact ⟨_, rfl⟩
    · rcases h.of_object with ⟨member, hmem, hcut⟩ | ⟨breach, rfl⟩
      · exact (members_fails hmem (hcut.value_fails _) _).bind _
      · exact fails_bind fun _ _ => (Stop.read_fails breach).bind _
  | keyless first =>
    rw [entriesOf]
    split <;> exact ⟨_, rfl⟩
  | missing | broken breach | array items stop => exact mismatch_fails _ _
  | null | bool b | number l | string text => cases h

theorem choiceOf_fails (h : doc.CutShort) (depth : Nat) (known : List String) :
    Fails (choiceOf depth known doc) := by
  cases doc with
  | object given stop =>
    unfold choiceOf
    dsimp only
    split
    · exact ⟨_, rfl⟩
    · cases given with
      | nil => cases stop <;> exact ⟨_, rfl⟩
      | cons first rest =>
        refine fails_bind fun name _ => fails_bind fun n _ => fails_bind fun _ hnothing => ?_
        cases rest with
        | cons member rest => exact ⟨_, rfl⟩
        | nil =>
          rcases h.of_object with ⟨member, hmem, hcut⟩ | ⟨breach, rfl⟩
          · cases List.mem_singleton.mp hmem
            exact absurd hnothing (hcut.nothing_fails.ne_ok ())
          · exact (Stop.endVariant_fails breach).bind _
  | keyless first =>
    rw [choiceOf]
    split
    · exact ⟨_, rfl⟩
    · exact mismatch_fails _ _
  | broken breach =>
    rw [choiceOf]
    split <;> exact ⟨_, rfl⟩
  | missing | array items stop => exact ⟨_, rfl⟩
  | null | bool b | number l | string text => cases h

theorem naturalOf_fails (h : doc.CutShort) (limit : Nat) (typeName : String) :
    Fails (naturalOf limit typeName doc) := by
  cases h <;> exact mismatch_fails _ _

theorem itemsOf_cut (h : doc.CutShort) {depth : Nat} {items : Items Doc}
    (hi : itemsOf depth doc = .ok items) :
    (∃ item ∈ items.nodes, item.CutShort) ∨ Fails items.stop := by
  cases doc with
  | array given stop =>
    rw [itemsOf] at hi
    split at hi
    · cases hi
    · cases hi
      exact h.of_array.imp_right fun ⟨breach, hstop⟩ => hstop ▸ Stop.read_fails breach
  | _ => exact absurd hi ((mismatch_fails _ _).ne_ok _)

theorem fieldsOf_cut (h : doc.CutShort) {depth : Nat} {expected : String} {fields : Fields Doc}
    (hf : fieldsOf depth expected doc = .ok fields) : fields.CutShort CutShort := by
  cases doc with
  | array items stop =>
    rw [fieldsOf] at hf
    split at hf
    · cases hf
    · cases hf
      refine ⟨fun count hcount => ⟨_, if_pos hcount⟩, h.of_array.imp_right ?_⟩
      rintro ⟨breach, rfl⟩
      rw [surplus, if_neg (Nat.lt_irrefl _)]
      exact Stop.endList_fails breach
  | object given stop =>
    rw [fieldsOf] at hf
    split at hf
    · cases hf
    · cases hf
      refine h.of_object.imp ?_ fun ⟨breach, hstop⟩ => hstop ▸ Stop.read_fails breach
      rintro ⟨member, hmem, hcut⟩
      exact ⟨_, List.mem_map_of_mem hmem, .inr hcut⟩
  | keyless first =>
    rw [fieldsOf] at hf
    split at hf
    · cases hf
    · cases hf
      exact .inr ⟨_, rfl⟩
  | missing | broken breach => exact absurd hf ((mismatch_fails _ _).ne_ok _)
  | null | bool b | number l | string text => cases h

end CutShort

theorem refuses_cutShort : Source.Refuses Doc CutShort where
  value h := h.value_fails _
  number h := h.numberOf_fails _
  entries h := h.entriesOf_fails _
  text h := h.text_fails
  natural h := h.naturalOf_fails _ _
  isNull h := by cases h <;> rfl
  choice h := h.choiceOf_fails _ _
  items h hi := h.itemsOf_cut hi
  fields h hf := h.fieldsOf_cut hf
  skip h := h.skip_fails

end Doc

end DecisionService.Json
