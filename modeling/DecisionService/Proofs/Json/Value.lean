import Mathlib
import DecisionService.Proofs.Json.Number
import DecisionService.Proofs.Outcome
/-!
# Values read back from JSON

Every value has a document, and the document of a value is sound. It is read back as a value unless
its containers take more levels than there are, or one of its objects starts with the name that
announces a numeric literal. Whatever a document is, no set is read from it.
-/
namespace DecisionService.Json

open Wire

abbrev tooDeep : Problem := .json .tooDeep

def StartsPlain : Value → Prop
  | .object ((name, _) :: _) => name ≠ literalName
  | _ => True

instance : DecidablePred StartsPlain := fun v =>
  match v with
  | .object ((name, _) :: _) => inferInstanceAs (Decidable (name ≠ literalName))
  | .object [] => isTrue trivial
  | .null | .bool _ | .number _ | .string _ | .array _ | .set _ => isTrue trivial

/-- No object in a value is taken for a numeric literal. -/
def Readable (v : Value) : Prop :=
  v.Each StartsPlain

instance : DecidablePred Readable := fun v => Value.decideEach StartsPlain v

/-- Not a set, and in an object each name stands once. -/
def IsTree : Value → Prop
  | .set _ => False
  | .object entries => (Entries.names entries).Nodup
  | _ => True

/-- If the value is a number, it is what a literal without a type stands for. -/
def IsUntyped : Value → Prop
  | .number n => ∃ text, Number.ofLiteral text = some n
  | _ => True

def IsGiven (v : Value) : Prop :=
  IsTree v ∧ IsUntyped v

namespace Doc

private theorem exists_ofValues {items : List Value}
    (h : ∀ v ∈ items, ∃ doc, ofValue v = .ok doc ∧ doc.Sound) :
    ∃ docs, ofValues items = .ok docs ∧ SoundItems docs := by
  induction items with
  | nil => exact ⟨[], rfl, trivial⟩
  | cons v rest ih =>
    obtain ⟨doc, hdoc, hs⟩ := h v List.mem_cons_self
    obtain ⟨docs, hdocs, hsound⟩ := ih fun w hw => h w (List.mem_cons_of_mem _ hw)
    refine ⟨doc :: docs, ?_, hs, hsound⟩
    rw [ofValues, hdoc, hdocs]
    rfl

private theorem exists_ofMemberValues {entries : Entries Value}
    (h : ∀ e ∈ entries, ∃ doc, ofValue e.2 = .ok doc ∧ doc.Sound) :
    ∃ members, ofEntries entries = .ok members ∧ SoundMembers members := by
  induction entries with
  | nil => exact ⟨[], rfl, trivial⟩
  | cons e rest ih =>
    obtain ⟨name, v⟩ := e
    obtain ⟨doc, hdoc, hs⟩ := h _ List.mem_cons_self
    obtain ⟨members, hmembers, hsound⟩ := ih fun w hw => h w (List.mem_cons_of_mem _ hw)
    refine ⟨(.ok name, doc) :: members, ?_, hs, hsound⟩
    rw [ofEntries, hdoc, hmembers]
    rfl

theorem exists_ofValue (v : Value) : ∃ doc, ofValue v = .ok doc ∧ doc.Sound := by
  induction v using Value.induction with
  | null => exact ⟨null, rfl, trivial⟩
  | bool b => exact ⟨bool b, rfl, trivial⟩
  | number n =>
    obtain ⟨doc, hdoc, hgives, -⟩ := ofNumber_gives n
    exact ⟨doc, hdoc, hgives.sound⟩
  | string s => exact ⟨string (.ok s), rfl, trivial⟩
  | array items ih | set items ih =>
    obtain ⟨docs, hdocs, hs⟩ := exists_ofValues ih
    exact ⟨array docs .closed, by rw [ofValue, hdocs]; rfl, hs⟩
  | object entries ih =>
    obtain ⟨members, hmembers, hs⟩ := exists_ofMemberValues ih
    exact ⟨object members .closed, by rw [ofValue, hmembers]; rfl, hs⟩

theorem exists_ofEntries (entries : Entries Value) :
    ∃ members, ofEntries entries = .ok members ∧ SoundMembers members :=
  exists_ofMemberValues fun e _ => exists_ofValue e.2

theorem isNull_ofValue {v : Value} {doc : Doc} (h : ofValue v = .ok doc) :
    Source.isNull doc = isNothing v := by
  cases v with
  | number n =>
    obtain ⟨doc', hdoc, -, hnull⟩ := ofNumber_gives n
    rw [ofValue, hdoc] at h
    cases h
    exact hnull
  | array items | set items | object entries =>
    obtain ⟨nodes, -, hdoc⟩ := Outcome.bind_eq_ok.mp h
    cases hdoc
    rfl
  | null | bool | string =>
    cases h
    rfl

private theorem values_ofValues {depth : Nat} {items : List Value} {docs : List Doc}
    (hw : ofValues items = .ok docs)
    (h : ∀ v ∈ items, ∀ doc, ofValue v = .ok doc → value depth doc
      = if v.height ≤ depth then .ok (v.relay medium) else .error tooDeep) :
    values depth docs = if Value.heightOfList items ≤ depth
      then .ok (Value.relayList medium items) else .error tooDeep := by
  induction items generalizing docs with
  | nil =>
    cases hw
    simp [values, Value.heightOfList, Value.relayList]
  | cons v rest ih =>
    obtain ⟨doc, hdoc, hw⟩ := Outcome.bind_eq_ok.mp hw
    obtain ⟨others, hothers, hw⟩ := Outcome.bind_eq_ok.mp hw
    cases hw
    have hrest := ih hothers fun w hw => h w (List.mem_cons_of_mem _ hw)
    rw [values, Value.heightOfList, Value.relayList]
    exact Outcome.bind_levels (h v List.mem_cons_self doc hdoc) (Outcome.map_levels hrest rfl)

private theorem members_ofEntries {depth : Nat} {entries : Entries Value}
    {given : List (Except Flaw String × Doc)} (hw : ofEntries entries = .ok given)
    (h : ∀ e ∈ entries, ∀ doc, ofValue e.2 = .ok doc → value depth doc
      = if e.2.height ≤ depth then .ok (e.2.relay medium) else .error tooDeep)
    (before : Entries Value) :
    members depth given before = if Value.heightOfEntries entries ≤ depth
      then .ok ((Value.relayEntries medium entries).foldl
        (fun entries (name, v) => entries.put name v) before)
      else .error tooDeep := by
  induction entries generalizing given before with
  | nil =>
    cases hw
    simp [members, Value.heightOfEntries, Value.relayEntries]
  | cons e rest ih =>
    obtain ⟨name, v⟩ := e
    obtain ⟨doc, hdoc, hw⟩ := Outcome.bind_eq_ok.mp hw
    obtain ⟨others, hothers, hw⟩ := Outcome.bind_eq_ok.mp hw
    cases hw
    have hv := h _ List.mem_cons_self doc hdoc
    have hrest := ih hothers (fun w hw => h w (List.mem_cons_of_mem _ hw))
    simp only [members, readText, Outcome.ok_bind, Value.heightOfEntries, Value.relayEntries,
      List.foldl_cons]
    exact Outcome.bind_levels hv (hrest _)

private theorem announcement?_ofEntries {entries : Entries Value}
    {given : List (Except Flaw String × Doc)} (hw : ofEntries entries = .ok given)
    (h : StartsPlain (.object entries)) : announcement? given = none := by
  cases entries with
  | nil =>
    cases hw
    rfl
  | cons e rest =>
    obtain ⟨name, v⟩ := e
    obtain ⟨doc, -, hw⟩ := Outcome.bind_eq_ok.mp hw
    obtain ⟨others, -, hw⟩ := Outcome.bind_eq_ok.mp hw
    cases hw
    exact if_neg h

private theorem values_bind (depth height : Nat) {α β : Type} {x : Except Problem α} {a : α}
    (f : α → β) (h : x = if height ≤ depth then .ok a else .error tooDeep) :
    (do
      let a ← x
      Stop.read .closed
      return f a) = if height + 1 ≤ depth + 1 then .ok (f a) else .error tooDeep := by
  simp only [Nat.add_le_add_iff_right]
  exact Outcome.map_levels h rfl

/-- A value is read back from its document exactly when there are levels enough. -/
theorem value_ofValue {v : Value} (h : Readable v) {doc : Doc} (hw : ofValue v = .ok doc)
    (depth : Nat) :
    value depth doc = if v.height ≤ depth then .ok (v.relay medium) else .error tooDeep := by
  induction v using Value.induction generalizing doc depth with
  | null | bool b | string s =>
    cases hw
    rw [value.eq_def]
    simp [readText, Value.height, Value.relay, Except.map]
  | number n =>
    obtain ⟨doc', hdoc, hgives, -⟩ := ofNumber_gives n
    rw [ofValue, hdoc] at hw
    cases hw
    exact (hgives.read depth).trans (if_pos (Nat.zero_le depth)).symm
  | array items ih | set items ih =>
    obtain ⟨docs, hdocs, hw⟩ := Outcome.bind_eq_ok.mp hw
    cases hw
    cases depth with
    | zero => rfl
    | succ depth =>
      rw [value]
      refine values_bind depth _ Value.array (values_ofValues hdocs fun v hv doc hd => ?_)
      exact ih v hv ((Value.eachOfList_iff _ _).mp h.2 v hv) hd depth
  | object entries ih =>
    obtain ⟨members, hmembers, hw⟩ := Outcome.bind_eq_ok.mp hw
    cases hw
    cases depth with
    | zero => rfl
    | succ depth =>
      rw [value, announcement?_ofEntries hmembers h.1]
      refine values_bind depth _ Value.object (members_ofEntries hmembers (fun e he doc hd => ?_) [])
      exact ih e he ((Value.eachOfEntries_iff _ _).mp h.2 e he) hd depth

theorem entriesOf_ofEntries {entries : Entries Value} (h : ∀ e ∈ entries, Readable e.2)
    {members : List (Except Flaw String × Doc)} (hw : ofEntries entries = .ok members)
    (depth : Nat) :
    entriesOf depth (object members .closed) = if Value.heightOfEntries entries + 1 ≤ depth
      then .ok (Entries.ofPairs (Value.relayEntries medium entries)) else .error tooDeep := by
  cases depth with
  | zero => rfl
  | succ depth =>
    rw [entriesOf, if_neg (Nat.succ_ne_zero depth)]
    exact values_bind depth _ id
      (members_ofEntries hw (fun e he doc hd => value_ofValue (h e he) hd depth) [])

theorem untyped_eq_ok {expected : String} {text : List Char} {n : Number} :
    untyped expected text = .ok n ↔ Number.ofLiteral text = some n := by
  unfold untyped
  cases Number.ofLiteral text <;> simp

theorem exists_literal_of_announced {expected : String} {literal : Doc}
    {rest : List (Except Flaw String × Doc)} {stop : Stop} {n : Number}
    (h : announced expected literal rest stop = .ok n) :
    ∃ text, Number.ofLiteral text = some n := by
  obtain ⟨text, -, h⟩ := Outcome.bind_eq_ok.mp h
  obtain ⟨m, hm, h⟩ := Outcome.bind_eq_ok.mp h
  obtain rfl : m = n := by
    dsimp only at h
    split at h
    · obtain ⟨-, -, h⟩ := Outcome.bind_eq_ok.mp h
      exact Except.ok.inj h
    · cases h
  exact ⟨_, untyped_eq_ok.mp hm⟩

mutual

/-- Whatever the document, what is read from it holds no set and no name twice, and its numbers are
those of literals. -/
theorem each_value : {depth : Nat} → {doc : Doc} → {v : Value} → value depth doc = .ok v →
    v.Each IsGiven
  | _, null, _, h | _, bool b, _, h => by
    cases h
    exact ⟨trivial, trivial⟩
  | _, number l, _, h => by
    obtain ⟨n, hn, rfl⟩ := Outcome.map_eq_ok.mp h
    exact ⟨trivial, _, untyped_eq_ok.mp hn⟩
  | _, string text, _, h => by
    obtain ⟨s, -, rfl⟩ := Outcome.map_eq_ok.mp h
    exact ⟨trivial, trivial⟩
  | depth + 1, array items stop, _, h => by
    obtain ⟨values, hvalues, h⟩ := Outcome.bind_eq_ok.mp h
    obtain ⟨-, -, h⟩ := Outcome.bind_eq_ok.mp h
    cases h
    exact ⟨⟨trivial, trivial⟩, each_values hvalues⟩
  | depth + 1, object given stop, _, h => by
    rw [value] at h
    split at h
    · obtain ⟨n, hn, rfl⟩ := Outcome.map_eq_ok.mp h
      exact ⟨trivial, exists_literal_of_announced hn⟩
    · obtain ⟨entries, hentries, h⟩ := Outcome.bind_eq_ok.mp h
      obtain ⟨-, -, h⟩ := Outcome.bind_eq_ok.mp h
      cases h
      obtain ⟨hnames, hmembers⟩ := each_members hentries List.nodup_nil trivial
      exact ⟨⟨hnames, trivial⟩, hmembers⟩
  | depth, keyless _, _, h => by
    cases depth <;> cases h

theorem each_values : {depth : Nat} → {docs : List Doc} → {items : List Value} →
    values depth docs = .ok items → Value.EachOfList IsGiven items
  | _, [], _, h => by
    cases h
    trivial
  | _, doc :: rest, _, h => by
    obtain ⟨v, hv, h⟩ := Outcome.bind_eq_ok.mp h
    obtain ⟨vs, hvs, h⟩ := Outcome.bind_eq_ok.mp h
    cases h
    exact ⟨each_value hv, each_values hvs⟩

theorem each_members : {depth : Nat} → {given : List (Except Flaw String × Doc)} →
    {before entries : Entries Value} → members depth given before = .ok entries →
    before.names.Nodup → Value.EachOfEntries IsGiven before →
    entries.names.Nodup ∧ Value.EachOfEntries IsGiven entries
  | _, [], _, _, h, hn, hb => by
    cases h
    exact ⟨hn, hb⟩
  | _, (name, doc) :: rest, before, _, h, hn, hb => by
    obtain ⟨s, -, h⟩ := Outcome.bind_eq_ok.mp h
    obtain ⟨v, hv, h⟩ := Outcome.bind_eq_ok.mp h
    -- the invariant of the entries read so far: putting one more keeps each name once
    refine each_members h (Entries.nodup_put v hn) ?_
    rw [Value.eachOfEntries_iff] at *
    intro e he
    rcases Entries.mem_put he with rfl | he
    · exact each_value hv
    · exact hb e he

end

end Doc

end DecisionService.Json
