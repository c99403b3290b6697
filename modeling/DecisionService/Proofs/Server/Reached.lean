import Mathlib
import DecisionService.Proofs.Client.Resource
import DecisionService.Proofs.Wire.Marshal
import DecisionService.Server.Answer
/-!
# Exchanges over HTTP

What the client writes into URL and headers is what the server reads there: the resource of the
container, its id and the format. So the answer carries the same bytes that the service would have
returned to a caller in its own process.
-/
namespace DecisionService

open Http Http.Path Wire

/-! ## The route -/

namespace Route

def resource (segment : List Char) : List Char :=
  ["containers".toList, segment, "dmn".toList].flatMap ('/' :: ·)

theorem path_resource {segment query : List Char} (hs : ∀ c ∈ segment, c ≠ '?' ∧ c ≠ '#')
    (hq : query = [] ∨ ∃ rest, query = '?' :: rest) :
    path (resource segment ++ query) = resource segment := by
  have hparts : ∀ part ∈ ["containers".toList, segment, "dmn".toList],
      ∀ c ∈ part, c ≠ '?' ∧ c ≠ '#' := by
    intro part hpart
    simp only [List.mem_cons, List.not_mem_nil, or_false] at hpart
    rcases hpart with rfl | rfl | rfl
    · simp
    · exact hs
    · simp
  have hpath : ∀ c ∈ resource segment, (decide (c ≠ '?') && decide (c ≠ '#')) = true := by
    intro c hc
    obtain ⟨part, hpart, hc⟩ := List.mem_flatMap.mp hc
    rcases List.mem_cons.mp hc with rfl | hc
    · decide
    · simpa using hparts part hpart c hc
  have hfront : (resource segment ++ query).takeWhile (fun c => c ≠ '?' && c ≠ '#')
      = resource segment := by
    rw [List.takeWhile_append_of_pos hpath]
    rcases hq with rfl | ⟨rest, rfl⟩
    · simp
    · simp
  rw [path, hfront]
  rfl

theorem ofPath?_resource {segment : List Char} (h : '/' ∉ segment) :
    ofPath? (resource segment) = some (.container segment) := by
  have hparts : ∀ part ∈ ["containers".toList, segment, "dmn".toList],
      ∀ c ∈ part, decide (c = '/') = false := by
    intro part hpart c hc
    rw [decide_eq_false_iff_not]
    rintro rfl
    simp only [List.mem_cons, List.not_mem_nil, or_false] at hpart
    rcases hpart with rfl | rfl | rfl
    · exact absurd hc (by decide)
    · exact h hc
    · exact absurd hc (by decide)
  rw [ofPath?, resource, Text.split_flatMap_cons (by decide) hparts]
  simp only [List.map_cons, List.map_nil, String.ofList_toList, String.ofList_nil,
    String.toList_ofList]

end Route

namespace Endpoint

variable {e : Endpoint}

/-- The base URL has no path of its own. -/
def IsRoot (e : Endpoint) : Prop :=
  e.base.path = .segments [] ∨ e.base.path = .segments [""]

def segment (e : Endpoint) (id : String) : List Char :=
  Percent.encode e.base.barredInSegment id.toList

theorem IsRoot.exists_path (h : e.IsRoot) :
    ∃ path, e.base.path = .segments path ∧ lead path = [] := by
  rcases h with h | h
  · exact ⟨_, h, rfl⟩
  · exact ⟨_, h, rfl⟩

theorem IsRoot.url_eq (h : e.IsRoot) {id : String} (hid : IsPlain id.toList) :
    e.url id = { e.base with
      path := .segments ["containers", String.ofList (e.segment id), "dmn"] } := by
  obtain ⟨path, hpath, hlead⟩ := h.exists_path
  rw [Endpoint.url_eq hpath, Place.of_plain hid, hlead]
  rfl

theorem IsRoot.target (h : e.IsRoot) {id : String} (hid : IsPlain id.toList) :
    (e.url id).target.toList = Route.resource (e.segment id) ++ e.base.renderQuery.toList := by
  have hmark : (e.url id).pathMark ["containers", String.ofList (e.segment id), "dmn"] = "" := by
    simp [Url.pathMark]
  have hpath : (e.url id).path = .segments ["containers", String.ofList (e.segment id), "dmn"] := by
    rw [h.url_eq hid]
  have hquery : (e.url id).renderQuery = e.base.renderQuery := by
    rw [h.url_eq hid]
    rfl
  rw [Url.target, Url.renderPath_segments hpath, hmark, hquery, String.empty_append,
    String.toList_append, toList_renderSegments, Route.resource]
  simp only [List.map_cons, List.map_nil, String.toList_ofList]

theorem renderQuery_cases (u : Url) :
    u.renderQuery.toList = [] ∨ ∃ rest, u.renderQuery.toList = '?' :: rest := by
  rw [Url.renderQuery]
  cases u.query? with
  | none => exact .inl rfl
  | some query => exact .inr ⟨query.toList, by simp⟩

/-- The server finds the resource of the container. -/
theorem IsRoot.route (h : e.IsRoot) {x : Exchange} (hid : IsPlain x.containerId.toList) :
    Route.ofTarget? (e.request x).target = some (.container (e.segment x.containerId)) := by
  have htarget : (e.request x).target = (e.url x.containerId).target := by
    rw [request]
    cases x.payload? <;> rfl
  have hfree : ∀ c ∈ e.segment x.containerId, c ≠ '?' ∧ c ≠ '#' := by
    intro c hc
    constructor
    · rintro rfl
      exact e.base.not_mem_encode (by decide) _ hc
    · rintro rfl
      exact e.base.not_mem_encode (by decide) _ hc
  have hslash : '/' ∉ e.segment x.containerId := e.base.not_mem_encode (by decide) _
  rw [Route.ofTarget?, htarget, h.target hid, Route.path_resource hfree (renderQuery_cases e.base),
    Route.ofPath?_resource hslash]

end Endpoint

/-! ## The format -/

theorem Service.exists_reply (r : Registry) (x : Exchange) :
    ∃ body, Service.reply r x = .ok body := by
  rw [Service.reply]
  cases x.payload? with
  | none => exact x.format.exists_marshal _
  | some payload => exact x.format.exists_marshal _

namespace Server

variable {s : Server} {e : Endpoint} {x : Exchange}

theorem reply_container {r : Http.Request} {segment : List Char}
    (hroute : Route.ofTarget? r.target = some (.container segment))
    (hmethod : r.method = "GET" ∨ r.method = "POST") : s.reply r = s.containerReply segment r := by
  rw [reply, hroute]
  simp only [resourceReply]
  rcases hmethod with hmethod | hmethod
  all_goals
    rw [hmethod]
    rfl

def idle : Server := ⟨.empty, .json⟩

end Server

end DecisionService
