import Mathlib
import DecisionService.Client.Remote
import DecisionService.Proofs.Http.Url
/-!
# The resource of a container

The URL of a container's resource is the base URL with its path extended. An id that neither reads
as dots nor has tabs or line breaks in it is one segment of its own, and no other such id shares its
URL; for all others it is told what becomes of them.
-/
namespace DecisionService

open Http Http.Path

namespace Http.Path

def Place.tail (barred : Char → Bool) (lead : List String) : Place → List String
  | skipped => ["containers", "dmn"]
  | above => if lead = [] then ["dmn"] else ["", "dmn"]
  | segment shown => ["containers", String.ofList (Percent.encode barred shown), "dmn"]

variable (u : Url) (front : List String)

theorem Place.tail_injective : Function.Injective (Place.tail u.barredInSegment front) := by
  intro a b h
  have hencode := Percent.encode_injective u.barredInSegment_percent
  have habove : ∀ rest, (if front = [] then ["dmn"] else ["", "dmn"]) ≠ "containers" :: rest := by
    intro rest
    split <;> simp
  cases a <;> cases b <;> simp only [tail] at h
  case skipped.skipped => rfl
  case skipped.above => exact absurd h.symm (habove _)
  case skipped.segment => simp at h
  case above.skipped => exact absurd h (habove _)
  case above.above => rfl
  case above.segment => exact absurd h (habove _)
  case segment.skipped => simp at h
  case segment.above => exact absurd h.symm (habove _)
  case segment.segment left right =>
    have hsegment := (List.cons.inj (List.cons.inj h).2).1
    rw [hencode (String.ofList_injective hsegment)]

/-- Three segments stand behind the lead where the id has one of its own. -/
theorem Place.tail_eq_iff (place : Place) :
    (∃ segment, Place.tail u.barredInSegment front place = ["containers", segment, "dmn"])
      ↔ ∃ shown, place = .segment shown := by
  cases place with
  | skipped => simp [tail]
  | above =>
    simp only [tail]
    split <;> simp
  | segment shown => simp [tail]

theorem Place.slash_not_mem_tail (place : Place) :
    ∀ part ∈ Place.tail u.barredInSegment front place, '/' ∉ part.toList := by
  have hfixed : ∀ part ∈ ["containers", "dmn", ""], '/' ∉ part.toList := by decide
  intro part hpart
  cases place with
  | skipped =>
    apply hfixed
    simp only [tail, List.mem_cons] at hpart ⊢
    tauto
  | above =>
    apply hfixed
    simp only [tail] at hpart
    split at hpart
    · simp only [List.mem_cons] at hpart ⊢
      tauto
    · simp only [List.mem_cons] at hpart ⊢
      tauto
  | segment shown =>
    simp only [tail, List.mem_cons, List.not_mem_nil, or_false] at hpart
    rcases hpart with rfl | rfl | rfl
    · decide
    · rw [String.toList_ofList]
      exact u.not_mem_encode (by decide) shown
    · decide

theorem Place.pathMark_tail (place : Place) :
    u.pathMark (front ++ place.tail u.barredInSegment front)
      = if front.head? = some "" ∧ u.host?.isNone = true then "/." else "" := by
  apply Url.pathMark_append
  · rintro rfl
    cases place <;> simp [tail]
  · cases place with
    | skipped => simp [tail]
    | above =>
      simp only [tail]
      split <;> simp
    | segment shown => simp [tail]

theorem push_containers (path : List String) :
    push u.barredInSegment "containers".toList path = opened path ++ ["containers"] := by
  apply Url.push_word u (by decide)
  simp [Url.barredInSegment_eq, Percent.barredInSegment_eq, Percent.isControl]

theorem push_dmn (path : List String) :
    push u.barredInSegment "dmn".toList path = opened path ++ ["dmn"] := by
  apply Url.push_word u (by decide)
  simp [Url.barredInSegment_eq, Percent.barredInSegment_eq, Percent.isControl]

theorem foldl_push (path : List String) (id : String) :
    ["containers", id, "dmn"].foldl (fun path text => push u.barredInSegment text.toList path)
        (closed path)
      = lead path ++ (Place.of id.toList).tail u.barredInSegment (lead path) := by
  have hopened : opened (lead path ++ ["containers"]) = lead path ++ ["containers"] :=
    opened_append (.inr (by decide))
  simp only [List.foldl_cons, List.foldl_nil, push_containers, push_dmn]
  rw [push_eq u.barredInSegment_percent u.barredInSegment_dot, ← lead]
  cases Place.of id.toList with
  | skipped =>
    simp only [Place.tail, hopened, List.append_assoc, List.cons_append, List.nil_append]
  | above =>
    -- the word in front of the dots is gone, so a path of nothing else is opened again
    simp only [Place.tail, hopened, List.dropLast_concat]
    by_cases hlead : lead path = []
    · rw [if_pos hlead, hlead]
      rfl
    · rw [if_neg hlead, opened_append (.inl hlead), List.append_assoc]
      rfl
  | segment shown =>
    simp only [Place.tail, hopened]
    rw [opened_append (.inl (by simp))]
    simp only [List.append_assoc, List.cons_append, List.nil_append]

end Http.Path

namespace Endpoint

/-- Segments can be put behind every base URL that was accepted. -/
theorem hasSegments_ofConfig {config : ClientConfig} {e : Endpoint} (h : ofConfig config = .ok e) :
    e.base.hasSegments = true := by
  unfold ofConfig at h
  split at h
  · cases h
  · split at h
    · next hsegments =>
      cases h
      exact hsegments
    · cases h

theorem exists_segments {e : Endpoint} (h : e.base.hasSegments = true) :
    ∃ path, e.base.path = .segments path := by
  unfold Url.hasSegments at h
  split at h
  · next heq => exact ⟨_, heq⟩
  · next heq => exact ⟨_, heq⟩
  · cases h

variable {e : Endpoint} {path : List String}

/-- Only the path changes, and it keeps its lead. -/
theorem url_eq (h : e.base.path = .segments path) (id : String) :
    e.url id = { e.base with
      path := .segments
        (lead path ++ (Place.of id.toList).tail e.base.barredInSegment (lead path)) } := by
  rw [url, Url.push_segments h, foldl_push]

theorem render_url_inj (h : e.base.path = .segments path) (id other : String) :
    (e.url id).render = (e.url other).render ↔ Place.of id.toList = Place.of other.toList := by
  constructor
  · intro hrender
    have hmark := Place.pathMark_tail e.base (lead path) (Place.of id.toList)
    have hmark' := Place.pathMark_tail e.base (lead path) (Place.of other.toList)
    rw [url_eq h, url_eq h, Url.render_withPath, Url.render_withPath, hmark, hmark'] at hrender
    apply Place.tail_injective e.base (lead path)
    apply renderSegments_append_inj (Place.slash_not_mem_tail _ _ _)
      (Place.slash_not_mem_tail _ _ _)
    simpa only [String.append_left_inj, String.append_right_inj] using hrender
  · intro hplace
    rw [url_eq h, url_eq h, hplace]

theorem url_plain (h : e.base.path = .segments path) {id : String} (hid : IsPlain id.toList) :
    (e.url id).path = .segments (lead path ++ ["containers",
      String.ofList (Percent.encode e.base.barredInSegment id.toList), "dmn"]) := by
  rw [url_eq h, Place.of_plain hid]
  rfl

/-- The URL of a resource is the base URL with more segments behind the lead of its path, whatever
the id is. There are three of them unless the id is bare dots, or two dots once its tabs and line
breaks are dropped, and ids share a URL exactly when they have one place. A plain id is a segment of
its own that is decoded to it, and shares its URL with no other plain id. -/
theorem url_resource {e : Endpoint} (he : e.base.hasSegments = true) :
    ∃ path, e.base.path = .segments path
      ∧ (lead path = if path = ["", ""] then []
        else if path.getLast? = some "" then path.dropLast else path)
      ∧ ∀ id : String,
        e.url id = { e.base with
          path := .segments
            (lead path ++ (Place.of id.toList).tail e.base.barredInSegment (lead path)) }
        ∧ ((∃ segment, (e.url id).path = .segments (lead path ++ ["containers", segment, "dmn"]))
          ↔ ∃ shown, Place.of id.toList = .segment shown)
        ∧ (IsPlain id.toList → ∃ segment : String,
          (e.url id).path = .segments (lead path ++ ["containers", segment, "dmn"])
          ∧ Percent.decode (Utf8.encode segment) = Utf8.encode id)
        ∧ ∀ other : String,
          ((e.url id).render = (e.url other).render
            ↔ Place.of id.toList = Place.of other.toList)
          ∧ (IsPlain id.toList → IsPlain other.toList →
            (e.url id).render = (e.url other).render → id = other) := by
  obtain ⟨path, hpath⟩ := exists_segments he
  refine ⟨path, hpath, lead_eq path, ?_⟩
  intro id
  refine ⟨url_eq hpath id, ?_, ?_, ?_⟩
  · rw [← Place.tail_eq_iff e.base (lead path), url_eq hpath]
    simp only [Path.segments.injEq, List.append_cancel_left_eq]
  · intro hid
    refine ⟨_, url_plain hpath hid, ?_⟩
    rw [Utf8.encode, String.toList_ofList, Percent.decode_encode e.base.barredInSegment_percent]
    rfl
  · intro other
    have hiff := render_url_inj hpath id other
    refine ⟨hiff, ?_⟩
    intro hid hother hrender
    have hplace := hiff.mp hrender
    rw [Place.of_plain hid, Place.of_plain hother] at hplace
    exact String.toList_injective (Place.segment.inj hplace)

def kie : Endpoint :=
  ⟨⟨"http", "", none, some (.name "kie"), some 8080, .segments [""], none, none⟩⟩

theorem url_resource_kie :
    kie.base.hasSegments = true ∧ IsPlain "a/b?%2e".toList
      ∧ ∃ segment : String, (kie.url "a/b?%2e").path = .segments ["containers", segment, "dmn"]
        ∧ Percent.decode (Utf8.encode segment) = Utf8.encode "a/b?%2e" := by
  have hplain : IsPlain "a/b?%2e".toList := by
    refine ⟨by decide, by decide, ?_⟩
    simp
  obtain ⟨path, hpath, -, hall⟩ := url_resource (e := kie) rfl
  obtain ⟨-, -, hsegment, -⟩ := hall "a/b?%2e"
  cases hpath
  exact ⟨rfl, hplain, hsegment hplain⟩

/-- A tab is dropped from an id, and two dots around it take a segment away. -/
theorem url_resource_fails :
    (kie.url "a\tb").render = (kie.url "ab").render
      ∧ (kie.url ".").path = .segments ["containers", "dmn"]
      ∧ (kie.url "..").path = .segments ["containers", "dmn"]
      ∧ (kie.url ".\t.").path = .segments ["dmn"] := by
  refine ⟨?_, ?_, ?_, ?_⟩
  · rw [render_url_inj rfl]
    decide
  · rw [url_eq rfl]
    rfl
  · rw [url_eq rfl]
    rfl
  · rw [url_eq rfl]
    rfl

end Endpoint

end DecisionService
