import Mathlib
import DecisionService.MessagePack.Item
import DecisionService.Proofs.Outcome
/-!
# Items in front of more

Every item says in front how far it goes. One that is scanned to its end is the same item in front
of whatever follows.
-/
namespace DecisionService.MessagePack.Item

private theorem take_followed {count : Nat} {bytes first rest : Bytes}
    (h : take count bytes = some (first, rest)) (more : Bytes) :
    take count (bytes ++ more) = some (first, rest ++ more) := by
  simp only [take] at h ⊢
  split at h
  · next hlen =>
    cases h
    have hcount : count ≤ bytes.length := by
      rw [← hlen]
      exact List.length_take_le' count bytes
    rw [List.take_append_of_le_length hcount, List.drop_append_of_le_length hcount]
    exact if_pos hlen
  · cases h

private theorem scanSize_followed {size : Size} {n : Nat} {bytes rest : Bytes}
    (h : scanSize size bytes = some (n, rest)) (more : Bytes) :
    scanSize size (bytes ++ more) = some (n, rest ++ more) := by
  cases size with
  | inline m =>
    cases h
    rfl
  | explicit width =>
    obtain ⟨⟨number, left⟩, htake, hn⟩ := Option.map_eq_some_iff.mp h
    cases hn
    rw [scanSize, take_followed htake]
    rfl

private theorem scanWord_followed {marker : UInt8} {width : Nat} {wrap : Nat → Item} {item : Item}
    {bytes rest : Bytes} (h : scanWord marker width wrap bytes = (item, some rest)) (more : Bytes) :
    scanWord marker width wrap (bytes ++ more) = (item, some (rest ++ more)) := by
  unfold scanWord at h
  split at h
  · cases h
  · next htake =>
    cases h
    rw [scanWord, take_followed htake]

private theorem scanBytes_followed {marker : UInt8} {length : Size} {wrap : Bytes → Item}
    {item : Item} {bytes rest : Bytes} (h : scanBytes marker length wrap bytes = (item, some rest))
    (more : Bytes) :
    scanBytes marker length wrap (bytes ++ more) = (item, some (rest ++ more)) := by
  unfold scanBytes at h
  split at h
  · cases h
  · next hsize =>
    split at h
    · cases h
    · next htake =>
      cases h
      rw [scanBytes, scanSize_followed hsize]
      dsimp only
      rw [take_followed htake]

private theorem scanExtension_followed {marker : UInt8} {length : Size} {item : Item}
    {bytes rest : Bytes} (h : scanExtension marker length bytes = (item, some rest))
    (more : Bytes) : scanExtension marker length (bytes ++ more) = (item, some (rest ++ more)) := by
  unfold scanExtension at h
  split at h
  · cases h
  · cases h
  · next hsize =>
    split at h
    · cases h
    · next htake =>
      cases h
      rw [scanExtension, scanSize_followed hsize]
      dsimp only [List.cons_append]
      rw [take_followed htake]

private structure Followed (fuel fuel' : Nat) : Prop where
  item : ∀ {bytes rest : Bytes} {item : Item}, scan fuel bytes = (item, some rest) →
    ∀ more, scan fuel' (bytes ++ more) = (item, some (rest ++ more))
  items : ∀ {count : Nat} {bytes rest : Bytes} {items : List Item},
    scanItems fuel count bytes = (items, some rest) →
    ∀ more, scanItems fuel' count (bytes ++ more) = (items, some (rest ++ more))
  entries : ∀ {count : Nat} {bytes rest : Bytes} {entries : List (Item × Item)},
    scanEntries fuel count bytes = (entries, some rest) →
    ∀ more, scanEntries fuel' count (bytes ++ more) = (entries, some (rest ++ more))

section Step

variable {fuel fuel' : Nat} (ih : Followed fuel fuel') {bytes rest : Bytes}
include ih

private theorem scan_step {item : Item} (h : scan (fuel + 1) bytes = (item, some rest))
    (more : Bytes) : scan (fuel' + 1) (bytes ++ more) = (item, some (rest ++ more)) := by
  cases bytes with
  | nil => cases h
  | cons marker bytes =>
    rw [scan] at h
    rw [List.cons_append, scan]
    split at h
    · cases h
      rfl
    · cases h
      rfl
    · cases h
      rfl
    · cases h
      rfl
    · exact scanWord_followed h more
    · cases h
      rfl
    · exact scanWord_followed h more
    · exact scanWord_followed h more
    · exact scanWord_followed h more
    · exact scanBytes_followed h more
    · exact scanBytes_followed h more
    · exact scanExtension_followed h more
    · split at h
      · cases h
      · next hsize =>
        dsimp only at h ⊢
        generalize hitems : scanItems fuel _ _ = scanned at h
        obtain ⟨items, left⟩ := scanned
        cases h
        rw [scanSize_followed hsize]
        dsimp only
        rw [ih.items hitems]
    · split at h
      · cases h
      · next hsize =>
        dsimp only at h ⊢
        generalize hentries : scanEntries fuel _ _ = scanned at h
        obtain ⟨entries, left⟩ := scanned
        cases h
        rw [scanSize_followed hsize]
        dsimp only
        rw [ih.entries hentries]

private theorem scanItems_step {count : Nat} {items : List Item}
    (h : scanItems (fuel + 1) count bytes = (items, some rest)) (more : Bytes) :
    scanItems (fuel' + 1) count (bytes ++ more) = (items, some (rest ++ more)) := by
  cases count with
  | zero =>
    rw [scanItems] at h ⊢
    cases h
    rfl
  | succ count =>
    rw [scanItems] at h ⊢
    generalize hscan : scan fuel bytes = scanned at h
    obtain ⟨item, _ | left⟩ := scanned
    · cases h
    dsimp only at h
    generalize hitems : scanItems fuel count left = others at h
    obtain ⟨items, left⟩ := others
    cases h
    rw [ih.item hscan]
    dsimp only
    rw [ih.items hitems]

private theorem scanEntries_step {count : Nat} {entries : List (Item × Item)}
    (h : scanEntries (fuel + 1) count bytes = (entries, some rest)) (more : Bytes) :
    scanEntries (fuel' + 1) count (bytes ++ more) = (entries, some (rest ++ more)) := by
  cases count with
  | zero =>
    rw [scanEntries] at h ⊢
    cases h
    rfl
  | succ count =>
    rw [scanEntries] at h ⊢
    generalize hkey : scan fuel bytes = scanned at h
    obtain ⟨key, _ | behindKey⟩ := scanned
    · cases h
    dsimp only at h
    generalize hitem : scan fuel behindKey = scanned at h
    obtain ⟨item, _ | left⟩ := scanned
    · cases h
    dsimp only at h
    generalize hentries : scanEntries fuel count left = others at h
    obtain ⟨entries, left⟩ := others
    cases h
    rw [ih.item hkey]
    dsimp only
    rw [ih.item hitem]
    dsimp only
    rw [ih.entries hentries]

end Step

private theorem followed {fuel fuel' : Nat} (hf : fuel ≤ fuel') : Followed fuel fuel' := by
  induction fuel generalizing fuel' with
  | zero => exact ⟨nofun, nofun, nofun⟩
  | succ fuel ih =>
    obtain ⟨fuel', rfl⟩ := Nat.exists_eq_succ_of_ne_zero (Nat.ne_zero_of_lt hf)
    have ih := ih (Nat.le_of_succ_le_succ hf)
    exact ⟨scan_step ih, scanItems_step ih, scanEntries_step ih⟩

theorem ofBytes_followed {bytes rest : Bytes} {item : Item} (h : ofBytes bytes = (item, some rest))
    (more : Bytes) : ofBytes (bytes ++ more) = (item, some (rest ++ more)) := by
  have hlen : bytes.length ≤ (bytes ++ more).length := by simp
  exact (followed (by omega)).item h more

end DecisionService.MessagePack.Item
