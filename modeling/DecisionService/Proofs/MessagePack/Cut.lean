import Mathlib
import DecisionService.MessagePack.Source
import DecisionService.Proofs.Wire.Refused
/-!
# Items that are cut short

Where scanning some bytes leaves nothing to go on with, the item breaks off somewhere, and then
nothing can be read from it: every reader comes to the place where it does.
-/
namespace DecisionService.MessagePack.Item

open Wire Outcome

/-- The item breaks off, itself or in one of its parts. A map that is to have one entry has no
other entries. -/
inductive CutShort : Item → Prop
  | missing : CutShort missing
  | cut (marker : UInt8) (flaw : Flaw) : CutShort (cut marker flaw)
  | extension (marker : UInt8) (flaw : Flaw) : CutShort (extension marker (.error flaw))
  | item {items : List Item} {item : Item} (marker : UInt8) (hmem : item ∈ items)
    (hcut : CutShort item) : CutShort (array marker items)
  | key {length : Nat} {entries : List (Item × Item)} {entry : Item × Item} (marker : UInt8)
    (hone : length = 1 → entries.length = 1) (hmem : entry ∈ entries) (hcut : CutShort entry.1) :
    CutShort (map marker length entries)
  | content {length : Nat} {entries : List (Item × Item)} {entry : Item × Item} (marker : UInt8)
    (hone : length = 1 → entries.length = 1) (hmem : entry ∈ entries) (hcut : CutShort entry.2) :
    CutShort (map marker length entries)

theorem CutShort.of_array {marker : UInt8} {items : List Item}
    (h : (array marker items).CutShort) : ∃ item ∈ items, item.CutShort := by
  cases h with
  | item _ hmem hcut => exact ⟨_, hmem, hcut⟩

theorem CutShort.of_map {marker : UInt8} {length : Nat} {entries : List (Item × Item)}
    (h : (map marker length entries).CutShort) :
    (length = 1 → entries.length = 1)
      ∧ ∃ entry ∈ entries, entry.1.CutShort ∨ entry.2.CutShort := by
  cases h with
  | key _ hone hmem hcut => exact ⟨hone, _, hmem, .inl hcut⟩
  | content _ hone hmem hcut => exact ⟨hone, _, hmem, .inr hcut⟩

/-! ## Scanning -/

def Ended (scanned : Scanned) : Prop :=
  scanned.2 = none → scanned.1.CutShort

private theorem ended_scanWord (marker : UInt8) (width : Nat) (wrap : Nat → Item) (bytes : Bytes) :
    Ended (scanWord marker width wrap bytes) := by
  unfold scanWord
  split
  · exact fun _ => .cut _ _
  · exact nofun

private theorem ended_scanBytes (marker : UInt8) (length : Size) (wrap : Bytes → Item)
    (bytes : Bytes) : Ended (scanBytes marker length wrap bytes) := by
  rw [scanBytes]
  cases scanSize length bytes with
  | none => exact fun _ => .cut _ _
  | some found =>
    dsimp only
    cases take found.1 found.2 with
    | none => exact fun _ => .cut _ _
    | some content => exact nofun

private theorem ended_scanExtension (marker : UInt8) (length : Size) (bytes : Bytes) :
    Ended (scanExtension marker length bytes) := by
  unfold scanExtension
  split
  · exact fun _ => .cut _ _
  · exact fun _ => .extension _ _
  · split
    · exact fun _ => .extension _ _
    · exact nofun

mutual

/-- An item that is not followed by anything, not even by the end of the bytes, breaks off. -/
theorem ended_scan : (fuel : Nat) → (bytes : Bytes) → Ended (scan fuel bytes)
  | 0, _ => fun _ => .missing
  | _ + 1, [] => fun _ => .missing
  | fuel + 1, marker :: bytes => by
    rw [scan]
    split
    · exact nofun
    · exact nofun
    · exact nofun
    · exact nofun
    · exact ended_scanWord _ _ _ _
    · exact nofun
    · exact ended_scanWord _ _ _ _
    · exact ended_scanWord _ _ _ _
    · exact ended_scanWord _ _ _ _
    · exact ended_scanBytes _ _ _ _
    · exact ended_scanBytes _ _ _ _
    · exact ended_scanExtension _ _ _
    · split
      · exact fun _ => .cut _ _
      · exact ended_scanItems marker fuel _ _
    · split
      · exact fun _ => .cut _ _
      · exact ended_scanEntries marker fuel _ _

theorem ended_scanItems (marker : UInt8) : (fuel count : Nat) → (bytes : Bytes) →
    Ended (array marker (scanItems fuel count bytes).1, (scanItems fuel count bytes).2)
  | 0, _, _ => fun _ => .item _ (List.mem_singleton_self _) .missing
  | _ + 1, 0, _ => by
    rw [scanItems]
    exact nofun
  | fuel + 1, count + 1, bytes => by
    have hitem := ended_scan fuel bytes
    rw [scanItems]
    generalize scan fuel bytes = scanned at *
    obtain ⟨item, _ | rest⟩ := scanned
    · exact fun _ => .item _ List.mem_cons_self (hitem rfl)
    · intro hnone
      obtain ⟨other, hmem, hcut⟩ := (ended_scanItems marker fuel count rest hnone).of_array
      exact .item _ (List.mem_cons_of_mem _ hmem) hcut

theorem ended_scanEntries (marker : UInt8) : (fuel count : Nat) → (bytes : Bytes) →
    Ended (map marker count (scanEntries fuel count bytes).1, (scanEntries fuel count bytes).2)
  | 0, _, _ => fun _ => .key _ (fun _ => rfl) (List.mem_singleton_self _) .missing
  | _ + 1, 0, _ => by
    rw [scanEntries]
    exact nofun
  | fuel + 1, count + 1, bytes => by
    have hkey := ended_scan fuel bytes
    rw [scanEntries]
    generalize scan fuel bytes = scanned at *
    obtain ⟨key, _ | rest⟩ := scanned
    · exact fun _ => .key _ (fun _ => rfl) (List.mem_singleton_self _) (hkey rfl)
    have hitem := ended_scan fuel rest
    dsimp only
    generalize hscan : scan fuel rest = scanned at *
    obtain ⟨item, _ | left⟩ := scanned
    · exact fun _ => .content _ (fun _ => rfl) (List.mem_singleton_self _) (hitem rfl)
    intro hnone
    obtain ⟨-, entry, hmem, hcut⟩ := (ended_scanEntries marker fuel count left hnone).of_map
    have hone : count + 1 = 1 → ((key, item) :: (scanEntries fuel count left).1).length = 1 := by
      -- no entry is left to ask for, and there was fuel to find that out
      intro hcount
      obtain rfl : count = 0 := Nat.succ_inj.mp hcount
      cases fuel with
      | zero => cases hscan
      | succ fuel =>
        simp only [scanEntries] at hnone
        cases hnone
    have hmem := List.mem_cons_of_mem (key, item) hmem
    exact hcut.elim (.key marker hone hmem) (.content marker hone hmem)

end

theorem ended_ofBytes (bytes : Bytes) : Ended (ofBytes bytes) :=
  ended_scan _ bytes

/-! ## Reading -/

private theorem mismatch_fails {α : Type} (depth : Nat) (expected : String) (item : Item) :
    Fails (item.mismatch depth expected : Except Problem α) :=
  fails_bind fun _ _ => ⟨_, rfl⟩

private theorem values_fails {depth : Nat} {items : List Item} {item : Item}
    (hmem : item ∈ items) (h : Fails (value depth item)) : Fails (values depth items) := by
  induction items with
  | nil => cases hmem
  | cons first rest ih =>
    rw [values]
    rcases List.mem_cons.mp hmem with rfl | hmem
    · exact h.bind _
    · exact fails_bind fun _ _ => (ih hmem).bind _

private theorem skipItems_fails {depth : Nat} {items : List Item} {item : Item}
    (hmem : item ∈ items) (h : Fails (skip depth item)) : Fails (skipItems depth items) := by
  induction items with
  | nil => cases hmem
  | cons first rest ih =>
    rw [skipItems]
    rcases List.mem_cons.mp hmem with rfl | hmem
    · exact h.bind _
    · exact fails_bind fun _ _ => ih hmem

private theorem members_fails {depth : Nat} {given : List (Item × Item)} {entry : Item × Item}
    (hmem : entry ∈ given) (h : Fails (entry.1.textOf depth) ∨ Fails (value depth entry.2))
    (entries : Entries Value) : Fails (members depth given entries) := by
  induction given generalizing entries with
  | nil => cases hmem
  | cons first rest ih =>
    obtain ⟨name, item⟩ := first
    rw [members]
    rcases List.mem_cons.mp hmem with rfl | hmem
    · rcases h with hname | hvalue
      · exact hname.bind _
      · exact fails_bind fun _ _ => hvalue.bind _
    · exact fails_bind fun _ _ => fails_bind fun _ _ => ih hmem _

private theorem skipEntries_fails {depth : Nat} {given : List (Item × Item)} {entry : Item × Item}
    (hmem : entry ∈ given) (h : Fails (skip depth entry.1) ∨ Fails (skip depth entry.2)) :
    Fails (skipEntries depth given) := by
  induction given with
  | nil => cases hmem
  | cons first rest ih =>
    obtain ⟨name, item⟩ := first
    rw [skipEntries]
    rcases List.mem_cons.mp hmem with rfl | hmem
    · rcases h with hname | hvalue
      · exact hname.bind _
      · exact fails_bind fun _ _ => hvalue.bind _
    · exact fails_bind fun _ _ => fails_bind fun _ _ => ih hmem

namespace CutShort

variable {item : Item}

theorem plain_fails (h : item.CutShort) : Fails item.plain := by
  cases h with
  | cut marker flaw =>
    rw [plain]
    split <;> exact ⟨_, rfl⟩
  | _ => exact ⟨_, rfl⟩

theorem textOf_fails (h : item.CutShort) (depth : Nat) : Fails (item.textOf depth) := by
  cases h <;> exact mismatch_fails _ _ _

theorem fieldName_fails (h : item.CutShort) (depth : Nat) : Fails (item.fieldName depth) := by
  cases h <;> exact mismatch_fails _ _ _

theorem variant_fails (h : item.CutShort) (depth : Nat) (known : List String) :
    Fails (item.variant depth known) := by
  cases h <;> exact mismatch_fails _ _ _

theorem nothing_fails (h : item.CutShort) : Fails item.nothing := by
  cases h <;> exact ⟨_, rfl⟩

theorem boolOf_fails (h : item.CutShort) : Fails item.boolOf := by
  cases h <;> exact fails_bind fun _ _ => ⟨_, rfl⟩

theorem floatOf_fails (h : item.CutShort) : Fails item.floatOf := by
  cases h <;> exact fails_bind fun _ _ => ⟨_, rfl⟩

theorem integerOf_fails (h : item.CutShort) (least most : Int) (expected : String) :
    Fails (item.integerOf least most expected) :=
  h.plain_fails.bind _

private theorem eq_singleton_of_mem {entries : List (Item × Item)} {entry : Item × Item}
    (hlength : entries.length = 1) (hmem : entry ∈ entries) : entries = [entry] := by
  obtain ⟨only, rfl⟩ := List.length_eq_one_iff.mp hlength
  rw [List.mem_singleton.mp hmem]

/-- The entry of a map that is to have one: it is the one that breaks off. -/
theorem of_map_one {marker : UInt8} {name content : Item} {rest : List (Item × Item)}
    (h : (map marker 1 ((name, content) :: rest)).CutShort) :
    rest = [] ∧ (name.CutShort ∨ content.CutShort) := by
  obtain ⟨hone, entry, hmem, hcut⟩ := h.of_map
  cases eq_singleton_of_mem (hone rfl) hmem
  exact ⟨rfl, hcut⟩

private theorem announcedDecimal_fails {depth length : Nat} {entries : List (Item × Item)}
    {entry : Item × Item} (hone : length = 1 → entries.length = 1) (hmem : entry ∈ entries)
    (h : Fails (entry.1.textOf depth) ∨ Fails (decimalOf depth entry.2)) :
    Fails (announcedDecimal depth length entries) := by
  obtain ⟨⟨name, content⟩, rest, rfl⟩ := List.exists_cons_of_ne_nil (List.ne_nil_of_mem hmem)
  rw [announcedDecimal]
  split
  · next s hname =>
    split
    · refine fails_bind fun d hd => ?_
      by_cases hlength : length = 1
      · cases eq_singleton_of_mem (hone hlength) hmem
        rcases h with h | h
        · exact absurd hname (h.ne_ok s)
        · exact absurd hd (h.ne_ok d)
      · rw [if_pos hlength]
        exact ⟨_, rfl⟩
    · exact ⟨_, rfl⟩
  · exact ⟨_, rfl⟩

theorem decimalOf_fails (h : item.CutShort) (depth : Nat) : Fails (decimalOf depth item) := by
  induction h generalizing depth with
  | missing | cut marker flaw => cases depth <;> exact mismatch_fails _ _ _
  | extension marker flaw => cases depth <;> exact mismatch_fails _ _ _
  | item marker hmem hcut => cases depth <;> exact mismatch_fails _ _ _
  | key marker hone hmem hcut ih =>
    cases depth with
    | zero => exact ⟨_, rfl⟩
    | succ depth => exact announcedDecimal_fails hone hmem (.inl (hcut.textOf_fails depth))
  | content marker hone hmem hcut ih =>
    cases depth with
    | zero => exact ⟨_, rfl⟩
    | succ depth => exact announcedDecimal_fails hone hmem (.inr (ih depth))

theorem numberContent_fails (h : item.CutShort) (depth position : Nat) :
    Fails (numberContent depth position item) := by
  unfold numberContent
  split
  · exact (h.integerOf_fails _ _ _).bind _
  · exact (h.integerOf_fails _ _ _).bind _
  · exact (h.textOf_fails _).bind _
  · exact h.floatOf_fails.bind _
  · exact (h.textOf_fails _).bind _
  · exact (h.decimalOf_fails _).bind _

theorem numberOf_fails (h : item.CutShort) (depth : Nat) : Fails (item.numberOf depth) := by
  unfold numberOf
  split
  · next name content =>
    obtain ⟨-, hname | hcontent⟩ := h.of_map_one
    · exact (hname.variant_fails _ _).bind _
    · exact fails_bind fun _ _ => hcontent.numberContent_fails _ _
  · exact ⟨_, rfl⟩
  · exact ⟨_, rfl⟩

theorem choiceOf_fails (h : item.CutShort) (depth : Nat) (known : List String) :
    Fails (item.choiceOf depth known) := by
  unfold choiceOf
  split
  · next name content =>
    obtain ⟨-, hname | hcontent⟩ := h.of_map_one
    · exact (hname.variant_fails _ _).bind _
    · exact fails_bind fun _ _ => hcontent.nothing_fails.bind _
  · exact ⟨_, rfl⟩
  · exact h.variant_fails _ _

private theorem wrapped_fails {depth length : Nat} {entries : List (Item × Item)}
    {entry : Item × Item} (hone : length = 1 → entries.length = 1) (hmem : entry ∈ entries)
    (h : entry.1.CutShort ∨ ∀ n, Fails (valueContent depth n entry.2)) :
    Fails (wrapped depth length entries) := by
  by_cases hlength : length = 1
  · subst hlength
    obtain rfl := eq_singleton_of_mem (hone rfl) hmem
    rw [wrapped]
    rcases h with h | h
    · exact (h.variant_fails _ _).bind _
    · exact fails_bind fun n _ => h n
  · unfold wrapped
    split
    · exact absurd rfl hlength
    · exact ⟨_, rfl⟩

private theorem valueContent_fails (h : item.CutShort) {depth : Nat}
    (hitems : ∀ marker items, item = array marker items → Fails (values (depth - 1) items))
    (hentries : ∀ marker length entries, item = map marker length entries →
      Fails (members (depth - 1) entries [])) (n : Nat) : Fails (valueContent depth n item) := by
  unfold valueContent
  split
  · exact h.nothing_fails.bind _
  · exact h.boolOf_fails.bind _
  · exact (h.numberOf_fails _).bind _
  · exact (h.textOf_fails _).bind _
  · exact fails_bind fun _ _ => (hitems _ _ rfl).bind _
  · cases h
  · exact fails_bind fun _ _ => (hitems _ _ rfl).bind _
  · cases h
  · exact fails_bind fun _ _ => (hentries _ _ _ rfl).bind _
  · exact mismatch_fails _ _ _
  · exact mismatch_fails _ _ _

theorem value_fails (h : item.CutShort) (depth : Nat) :
    Fails (value depth item) ∧ ∀ n, Fails (valueContent depth n item) := by
  induction h generalizing depth with
  | missing => exact ⟨(variant_fails .missing _ _).bind _, valueContent_fails .missing nofun nofun⟩
  | cut marker flaw =>
    have h := CutShort.cut marker flaw
    exact ⟨(h.variant_fails _ _).bind _, h.valueContent_fails nofun nofun⟩
  | extension marker flaw =>
    have h := CutShort.extension marker flaw
    exact ⟨(h.variant_fails _ _).bind _, h.valueContent_fails nofun nofun⟩
  | item marker hmem hcut ih =>
    have h := hcut.item marker hmem
    refine ⟨(h.variant_fails _ _).bind _, h.valueContent_fails ?_ nofun⟩
    rintro _ _ ⟨⟩
    exact values_fails hmem (ih _).1
  | key marker hone hmem hcut ih =>
    have h := hcut.key marker hone hmem
    refine ⟨wrapped_fails hone hmem (.inl hcut), h.valueContent_fails nofun ?_⟩
    rintro _ _ _ ⟨⟩
    exact members_fails hmem (.inl (hcut.textOf_fails _)) _
  | content marker hone hmem hcut ih =>
    have h := hcut.content marker hone hmem
    refine ⟨wrapped_fails hone hmem (.inr (ih depth).2), h.valueContent_fails nofun ?_⟩
    rintro _ _ _ ⟨⟩
    exact members_fails hmem (.inr (ih _).1) _

theorem entriesOf_fails (h : item.CutShort) (depth : Nat) : Fails (item.entriesOf depth) := by
  cases item with
  | map marker length entries =>
    obtain ⟨-, entry, hmem, hcut⟩ := h.of_map
    exact fails_bind fun _ _ => (members_fails hmem
      (hcut.imp (textOf_fails · _) fun hcut => (hcut.value_fails _).1) _)
  | _ => exact mismatch_fails _ _ _

theorem naturalOf_fails (h : item.CutShort) (limit : Nat) (typeName : String) :
    Fails (item.naturalOf limit typeName) :=
  h.plain_fails.bind _

theorem skip_fails (h : item.CutShort) (depth : Nat) : Fails (skip depth item) := by
  induction h generalizing depth with
  | missing | cut marker flaw => cases depth <;> exact ⟨_, rfl⟩
  | extension marker flaw => cases depth <;> exact ⟨_, rfl⟩
  | item marker hmem hcut ih =>
    cases depth with
    | zero => exact ⟨_, rfl⟩
    | succ depth => exact skipItems_fails hmem (ih depth)
  | key marker hone hmem hcut ih =>
    cases depth with
    | zero => exact ⟨_, rfl⟩
    | succ depth => exact skipEntries_fails hmem (.inl (ih depth))
  | content marker hone hmem hcut ih =>
    cases depth with
    | zero => exact ⟨_, rfl⟩
    | succ depth => exact skipEntries_fails hmem (.inr (ih depth))

theorem itemsOf_cut (h : item.CutShort) {depth : Nat} {items : Items Item}
    (hi : item.itemsOf depth = .ok items) :
    (∃ item ∈ items.nodes, item.CutShort) ∨ Fails items.stop := by
  cases item with
  | array marker given =>
    obtain ⟨-, -, hi⟩ := bind_eq_ok.mp hi
    cases hi
    exact .inl h.of_array
  | binary marker bytes => cases h
  | _ => exact absurd hi ((mismatch_fails _ _ _).ne_ok _)

theorem fieldsOf_cut (h : item.CutShort) {depth : Nat} {expected : String} {fields : Fields Item}
    (hf : item.fieldsOf depth expected = .ok fields) : fields.CutShort CutShort := by
  cases item with
  | array marker items =>
    obtain ⟨-, -, hf⟩ := bind_eq_ok.mp hf
    cases hf
    exact ⟨fun count hcount => ⟨_, if_pos hcount⟩, .inl h.of_array⟩
  | map marker length entries =>
    obtain ⟨-, -, hf⟩ := bind_eq_ok.mp hf
    cases hf
    obtain ⟨-, entry, hmem, hcut⟩ := h.of_map
    exact .inl ⟨_, List.mem_map_of_mem hmem, hcut.imp (fieldName_fails · _) id⟩
  | _ => exact absurd hf ((mismatch_fails _ _ _).ne_ok _)

end CutShort

theorem refuses_cutShort : Source.Refuses Item CutShort where
  value h := (h.value_fails _).1
  number h := h.numberOf_fails _
  entries h := h.entriesOf_fails _
  text h := h.textOf_fails _
  natural h := h.naturalOf_fails _ _
  isNull h := by cases h <;> rfl
  choice h := h.choiceOf_fails _ _
  items h hi := h.itemsOf_cut hi
  fields h hf := h.fieldsOf_cut hf
  skip h := h.skip_fails _

end DecisionService.MessagePack.Item
