import Mathlib
import DecisionService.MessagePack.Item
import DecisionService.Proofs.Bytes
/-!
# Items scanned back

An item is sound when its marker announces what the item holds. A sound item is scanned back from
its bytes, whatever follows them. The items that are built for numbers, texts, lists and maps are
sound as long as their lengths fit the four bytes that a length can have.
-/
namespace DecisionService.MessagePack

def Size.Holds : Size → Nat → Prop
  | .inline m, n => m = n
  | .explicit width, n => n < 256 ^ width

namespace Item

def Integral (marker : UInt8) (n : Int) : Prop :=
  (∃ size, Kind.ofMarker marker = .unsigned size ∧ size.Holds n.toNat ∧ 0 ≤ n ∧ n < 2 ^ 64)
    ∨ (∃ m : Nat, Kind.ofMarker marker = .signed (.inline m) ∧ n = -m)
    ∨ ∃ width ∈ [1, 2, 4, 8], Kind.ofMarker marker = .signed (.explicit width)
        ∧ -(2 ^ (8 * width - 1)) ≤ n ∧ n < 0

mutual

def Sound : Item → Prop
  | nil => True
  | bool _ => True
  | double _ => True
  | integer marker n => Integral marker n
  | text marker bytes => ∃ size, Kind.ofMarker marker = .text size ∧ size.Holds bytes.length
  | array marker items =>
    (∃ size, Kind.ofMarker marker = .array size ∧ size.Holds items.length) ∧ SoundItems items
  | map marker n entries =>
    n = entries.length ∧ (∃ size, Kind.ofMarker marker = .map size ∧ size.Holds entries.length)
      ∧ SoundEntries entries
  | _ => False

def SoundItems : List Item → Prop
  | [] => True
  | item :: rest => Sound item ∧ SoundItems rest

def SoundEntries : List (Item × Item) → Prop
  | [] => True
  | (key, item) :: rest => Sound key ∧ Sound item ∧ SoundEntries rest

end

private theorem take_append (bytes rest : Bytes) :
    take bytes.length (bytes ++ rest) = some (bytes, rest) := by
  simp [take]

private theorem take_bigEndian (width n : Nat) (rest : Bytes) :
    take width (Bytes.bigEndian width n ++ rest) = some (Bytes.bigEndian width n, rest) := by
  have h := take_append (Bytes.bigEndian width n) rest
  rwa [Bytes.length_bigEndian] at h

theorem scanSize_append {size : Size} {n : Nat} (h : size.Holds n) (rest : Bytes) :
    scanSize size (sizeBytes size n ++ rest) = some (n, rest) := by
  cases size with
  | inline m =>
    cases h
    rfl
  | explicit width =>
    rw [scanSize, sizeBytes, take_bigEndian]
    simp only [Option.map_some, Bytes.toNat_bigEndian, Nat.mod_eq_of_lt h]

private theorem scanBytes_append (marker : UInt8) (wrap : Bytes → Item) {size : Size}
    {bytes : Bytes} (h : size.Holds bytes.length) (rest : Bytes) :
    scanBytes marker size wrap (sizeBytes size bytes.length ++ (bytes ++ rest))
      = (wrap bytes, some rest) := by
  rw [scanBytes, scanSize_append h]
  simp only [take_append]

private theorem wordBits_of_nonneg {n : Int} (h0 : 0 ≤ n) (h : n < 2 ^ 64) :
    wordBits n = n.toNat := by
  rw [wordBits, Int.emod_eq_of_lt h0 h]

private theorem toSigned_wordBits {width : Nat} (hw : width ∈ [1, 2, 4, 8]) {n : Int}
    (hl : -(2 ^ (8 * width - 1)) ≤ n) (h0 : n < 0) :
    toSigned width (wordBits n % 256 ^ width) = n := by
  have hbits : (wordBits n : Int) = n % 2 ^ 64 := Int.toNat_of_nonneg (Int.emod_nonneg _ (by decide))
  simp only [List.mem_cons, List.not_mem_nil, or_false] at hw
  rcases hw with rfl | rfl | rfl | rfl
  all_goals
    simp only [toSigned] at *
    split <;> omega

private theorem scan_integer {marker : UInt8} {n : Int} (h : Integral marker n) (rest : Bytes)
    (fuel : Nat) : scan (fuel + 1) (render (integer marker n) ++ rest)
      = (integer marker n, some rest) := by
  rw [render, List.cons_append, scan]
  rcases h with ⟨size, hk, hs, h0, hn⟩ | ⟨m, hk, rfl⟩ | ⟨width, hw, hk, hl, h0⟩
  · cases size with
    | inline m =>
      simp only [hk, countBytes, sizeBytes, List.nil_append]
      rw [hs, Int.toNat_of_nonneg h0]
    | explicit width =>
      simp only [hk, countBytes, sizeBytes, scanWord, take_bigEndian, Bytes.toNat_bigEndian,
        wordBits_of_nonneg h0 hn, Nat.mod_eq_of_lt hs, Int.toNat_of_nonneg h0]
  · simp only [hk, countBytes, sizeBytes, List.nil_append]
  · simp only [hk, countBytes, sizeBytes, scanWord, take_bigEndian, Bytes.toNat_bigEndian,
      toSigned_wordBits hw hl h0]

theorem length_render_pos {item : Item} (h : item.Sound) : 0 < (render item).length := by
  cases item with
  | bool b => cases b <;> simp [render]
  | nil | integer | double | text | array | map => simp [render]
  | _ => exact h.elim

mutual

theorem scan_render : (item : Item) → item.Sound → (rest : Bytes) → (fuel : Nat) →
    2 * (render item).length ≤ fuel → scan fuel (render item ++ rest) = (item, some rest)
  | item, h, rest, 0, hf => by
    have := length_render_pos h
    omega
  | nil, _, rest, fuel + 1, _ => rfl
  | bool true, _, rest, fuel + 1, _ => rfl
  | bool false, _, rest, fuel + 1, _ => rfl
  | double x, _, rest, fuel + 1, _ => by
    have hx : x.bits.toNat % 256 ^ 8 = x.bits.toNat := Nat.mod_eq_of_lt x.bits.toNat_lt
    rw [render, List.cons_append, scan]
    simp only [show Kind.ofMarker 0xCB = .double from rfl, scanWord, take_bigEndian,
      Bytes.toNat_bigEndian, hx, UInt64.ofNat_toNat]
  | integer marker n, h, rest, fuel + 1, _ => scan_integer h rest fuel
  | text marker bytes, h, rest, fuel + 1, _ => by
    obtain ⟨size, hk, hs⟩ := h
    rw [render, List.cons_append, List.cons_append, scan]
    simp only [hk, countBytes, List.append_assoc, scanBytes_append marker (text marker) hs rest]
  | array marker items, h, rest, fuel + 1, hf => by
    obtain ⟨⟨size, hk, hs⟩, hitems⟩ := h
    have hfuel : 2 * (renderItems items).length + 1 ≤ fuel := by
      simp only [render, List.length_cons, List.length_append] at hf
      omega
    rw [render, List.cons_append, List.cons_append, scan]
    simp only [hk, countBytes, List.append_assoc, scanSize_append hs,
      scanItems_render items hitems rest fuel hfuel]
  | map marker n entries, h, rest, fuel + 1, hf => by
    obtain ⟨rfl, ⟨size, hk, hs⟩, hentries⟩ := h
    have hfuel : 2 * (renderEntries entries).length + 1 ≤ fuel := by
      simp only [render, List.length_cons, List.length_append] at hf
      omega
    rw [render, List.cons_append, List.cons_append, scan]
    simp only [hk, countBytes, List.append_assoc, scanSize_append hs,
      scanEntries_render entries hentries rest fuel hfuel]

theorem scanItems_render : (items : List Item) → SoundItems items → (rest : Bytes) → (fuel : Nat) →
    2 * (renderItems items).length + 1 ≤ fuel →
    scanItems fuel items.length (renderItems items ++ rest) = (items, some rest)
  | _, _, _, 0, hf => by omega
  | [], _, rest, fuel + 1, _ => rfl
  | item :: items, h, rest, fuel + 1, hf => by
    have hpos := length_render_pos h.1
    simp only [renderItems, List.length_append] at hf
    rw [renderItems, List.append_assoc, List.length_cons, scanItems,
      scan_render item h.1 _ fuel (by omega)]
    simp only [scanItems_render items h.2 rest fuel (by omega)]

theorem scanEntries_render : (entries : List (Item × Item)) → SoundEntries entries →
    (rest : Bytes) → (fuel : Nat) → 2 * (renderEntries entries).length + 1 ≤ fuel →
    scanEntries fuel entries.length (renderEntries entries ++ rest) = (entries, some rest)
  | _, _, _, 0, hf => by omega
  | [], _, rest, fuel + 1, _ => rfl
  | (key, item) :: entries, h, rest, fuel + 1, hf => by
    have hpos := length_render_pos h.1
    simp only [renderEntries, List.length_append] at hf
    rw [renderEntries, List.append_assoc, List.append_assoc, List.length_cons, scanEntries,
      scan_render key h.1 _ fuel (by omega)]
    simp only [scan_render item h.2.1 _ fuel (by omega),
      scanEntries_render entries h.2.2 rest fuel (by omega)]

end

theorem ofBytes_render {item : Item} (h : item.Sound) : ofBytes (render item) = (item, some []) := by
  have hscan := scan_render item h [] (2 * (render item).length + 2) (by omega)
  rwa [List.append_nil] at hscan

mutual

/-- No text, list or map in the item is longer than four bytes can tell. -/
def Fits : Item → Prop
  | text _ bytes => bytes.length < 2 ^ 32
  | binary _ bytes => bytes.length < 2 ^ 32
  | array _ items => items.length < 2 ^ 32 ∧ FitsItems items
  | map _ _ entries => entries.length < 2 ^ 32 ∧ FitsEntries entries
  | _ => True

def FitsItems : List Item → Prop
  | [] => True
  | item :: rest => Fits item ∧ FitsItems rest

def FitsEntries : List (Item × Item) → Prop
  | [] => True
  | (key, item) :: rest => Fits key ∧ Fits item ∧ FitsEntries rest

end

mutual

def decideFits : (item : Item) → Decidable item.Fits
  | text _ bytes | binary _ bytes => inferInstanceAs (Decidable (bytes.length < 2 ^ 32))
  | array _ items =>
    have := decideFitsItems items
    inferInstanceAs (Decidable (items.length < 2 ^ 32 ∧ FitsItems items))
  | map _ _ entries =>
    have := decideFitsEntries entries
    inferInstanceAs (Decidable (entries.length < 2 ^ 32 ∧ FitsEntries entries))
  | missing | cut _ _ | reserved | nil | bool _ | integer _ _ | single _ | double _
  | extension _ _ | octet _ => isTrue trivial

def decideFitsItems : (items : List Item) → Decidable (FitsItems items)
  | [] => isTrue trivial
  | item :: rest =>
    have := decideFits item
    have := decideFitsItems rest
    inferInstanceAs (Decidable (Fits item ∧ FitsItems rest))

def decideFitsEntries : (entries : List (Item × Item)) → Decidable (FitsEntries entries)
  | [] => isTrue trivial
  | (key, item) :: rest =>
    have := decideFits key
    have := decideFits item
    have := decideFitsEntries rest
    inferInstanceAs (Decidable (Fits key ∧ Fits item ∧ FitsEntries rest))

end

instance : DecidablePred Fits := decideFits

private theorem ofMarker_unsigned : ∀ n < 0x80,
    Kind.ofMarker (UInt8.ofNat n) = .unsigned (.inline n) := by
  decide

private theorem ofMarker_negative : ∀ n < 32,
    Kind.ofMarker (UInt8.ofNat (0xE0 + n)) = .signed (.inline (32 - n)) := by
  decide

private theorem ofMarker_text : ∀ n < 32,
    Kind.ofMarker (UInt8.ofNat (0xA0 + n)) = .text (.inline n) := by
  decide

private theorem ofMarker_array : ∀ n < 16,
    Kind.ofMarker (UInt8.ofNat (0x90 + n)) = .array (.inline n) := by
  decide

private theorem ofMarker_map : ∀ n < 16,
    Kind.ofMarker (UInt8.ofNat (0x80 + n)) = .map (.inline n) := by
  decide

theorem sound_ofNat {n : Nat} (h : n < 2 ^ 64) : (ofNat n).Sound := by
  have explicit : ∀ marker width, Kind.ofMarker marker = .unsigned (.explicit width) →
      n < 256 ^ width → (integer marker (n : Int)).Sound := by
    intro marker width hk hn
    exact Or.inl ⟨_, hk, hn, by omega, by omega⟩
  unfold ofNat
  split_ifs with h1 h2 h3 h4
  · exact Or.inl ⟨_, ofMarker_unsigned n h1, rfl, by omega, by omega⟩
  · exact explicit 0xCC 1 rfl h2
  · exact explicit 0xCD 2 rfl h3
  · exact explicit 0xCE 4 rfl h4
  · exact explicit 0xCF 8 rfl h

theorem sound_ofInt {n : Int} (hl : -(2 ^ 63) ≤ n) (hn : n < 2 ^ 63) : (ofInt n).Sound := by
  have explicit : ∀ marker width, width ∈ [1, 2, 4, 8] →
      Kind.ofMarker marker = .signed (.explicit width) → -(2 ^ (8 * width - 1)) ≤ n → n < 0 →
      (integer marker n).Sound := by
    intro marker width hw hk hlow h0
    exact Or.inr (Or.inr ⟨width, hw, hk, hlow, h0⟩)
  unfold ofInt
  split_ifs with h1 h2 h3 h4 h5
  · exact sound_ofNat (by omega)
  · have hmarker := ofMarker_negative (n + 32).toNat (by omega)
    have hcode : (n + 256).toNat = 0xE0 + (n + 32).toNat := by omega
    refine Or.inr (Or.inl ⟨_, hcode ▸ hmarker, ?_⟩)
    omega
  · exact explicit 0xD0 1 (by simp) rfl h3 (by omega)
  · exact explicit 0xD1 2 (by simp) rfl h4 (by omega)
  · exact explicit 0xD2 4 (by simp) rfl h5 (by omega)
  · exact explicit 0xD3 8 (by simp) rfl hl (by omega)

theorem fits_ofText (s : String) : (ofText s).Fits ↔ (Utf8.encode s).length < 2 ^ 32 := by
  unfold ofText
  extract_lets bytes n
  split_ifs <;> rfl

theorem sound_ofText {s : String} (h : (ofText s).Fits) : (ofText s).Sound := by
  rw [fits_ofText] at h
  unfold ofText
  extract_lets bytes n
  split_ifs with h1 h2 h3
  · exact ⟨_, ofMarker_text n h1, rfl⟩
  · exact ⟨.explicit 1, rfl, h2⟩
  · exact ⟨.explicit 2, rfl, h3⟩
  · exact ⟨.explicit 4, rfl, h⟩

theorem fits_ofItems (items : List Item) :
    (ofItems items).Fits ↔ items.length < 2 ^ 32 ∧ FitsItems items := by
  unfold ofItems
  extract_lets n
  split_ifs <;> rfl

theorem sound_ofItems {items : List Item} (h : items.length < 2 ^ 32) (hs : SoundItems items) :
    (ofItems items).Sound := by
  unfold ofItems
  extract_lets n
  split_ifs with h1 h2
  · exact ⟨⟨_, ofMarker_array n h1, rfl⟩, hs⟩
  · exact ⟨⟨.explicit 2, rfl, h2⟩, hs⟩
  · exact ⟨⟨.explicit 4, rfl, h⟩, hs⟩

theorem fits_ofEntries (entries : List (Item × Item)) :
    (ofEntries entries).Fits ↔ entries.length < 2 ^ 32 ∧ FitsEntries entries := by
  unfold ofEntries
  extract_lets n
  split_ifs <;> rfl

theorem sound_ofEntries {entries : List (Item × Item)} (h : entries.length < 2 ^ 32)
    (hs : SoundEntries entries) : (ofEntries entries).Sound := by
  unfold ofEntries
  extract_lets n
  split_ifs with h1 h2
  · exact ⟨rfl, ⟨_, ofMarker_map n h1, rfl⟩, hs⟩
  · exact ⟨rfl, ⟨.explicit 2, rfl, h2⟩, hs⟩
  · exact ⟨rfl, ⟨.explicit 4, rfl, h⟩, hs⟩

private theorem soundEntries_ofText {members : List (String × Item)}
    (hs : ∀ m ∈ members, m.2.Fits → m.2.Sound)
    (hf : FitsEntries (members.map fun m => (ofText m.1, m.2))) :
    SoundEntries (members.map fun m => (ofText m.1, m.2)) := by
  induction members with
  | nil => trivial
  | cons m rest ih =>
    obtain ⟨hkey, hitem, hrest⟩ := hf
    exact ⟨sound_ofText hkey, hs m List.mem_cons_self hitem,
      ih (fun m hm => hs m (List.mem_cons_of_mem _ hm)) hrest⟩

theorem sound_ofMembers {members : List (String × Item)} (h : (ofMembers members).Fits)
    (hs : ∀ m ∈ members, m.2.Fits → m.2.Sound) : (ofMembers members).Sound := by
  rw [ofMembers, fits_ofEntries] at h
  exact sound_ofEntries h.1 (soundEntries_ofText hs h.2)

end Item

end DecisionService.MessagePack
