import Mathlib
import DecisionService.Proofs.Server.Reached
/-!
# Answers of a container's resource

Which format an exchange has depends on the first header of a name and on the first item that names
a format. A request without a format is refused before anything is looked up; to any other request
the service has a response, and every response can be written.
-/
namespace DecisionService

open Http Wire

namespace Http.Header

def First (name : String) (headers : List Header) (value : Bytes) : Prop :=
  ∃ before header after, headers = before ++ header :: after ∧ header.isNamed name = true
    ∧ header.value = value ∧ ∀ other ∈ before, other.isNamed name = false

def Absent (name : String) (headers : List Header) : Prop :=
  ∀ header ∈ headers, header.isNamed name = false

variable {name : String} {headers : List Header}

theorem find?_eq_some_iff {value : Bytes} : find? name headers = some value ↔
    First name headers value := by
  simp only [find?, Option.map_eq_some_iff, List.find?_eq_some_iff_append, First]
  constructor
  · rintro ⟨header, ⟨hnamed, before, after, rfl, hbefore⟩, rfl⟩
    exact ⟨before, header, after, rfl, hnamed, rfl, by simpa using hbefore⟩
  · rintro ⟨before, header, after, rfl, hnamed, rfl, hbefore⟩
    exact ⟨header, ⟨hnamed, before, after, rfl, by simpa using hbefore⟩, rfl⟩

theorem find?_eq_none_iff : find? name headers = none ↔ Absent name headers := by
  simp [find?, Absent]

theorem Absent.not_first {value : Bytes} (h : Absent name headers) :
    ¬ First name headers value := by
  rw [← find?_eq_some_iff, find?_eq_none_iff.mpr h]
  exact nofun

end Http.Header

namespace Negotiation

def FirstAccepted (list : String) (format : Format) : Prop :=
  ∃ before item after, Text.split (· = ',') list.toList = before ++ item :: after
    ∧ Format.ofContentType (String.ofList item) = some format
    ∧ ∀ other ∈ before, Format.ofContentType (String.ofList other) = none

def Accepts (headers : List Header) (format : Format) : Prop :=
  ∃ value list, Header.First "accept" headers value ∧ Header.text? value = some list
    ∧ FirstAccepted list format

/-- The format of an exchange: that of the content type; without a content type the first one that
the caller accepts; and else the server's own. -/
inductive Chosen (standard : Format) (headers : List Header) : Format → Prop
  | contentType {value : Bytes} {text : String} {format : Format}
    (hfirst : Header.First "content-type" headers value) (htext : Header.text? value = some text)
    (hformat : Format.ofContentType text = some format) : Chosen standard headers format
  | accepted {format : Format} (habsent : Header.Absent "content-type" headers)
    (haccepts : Accepts headers format) : Chosen standard headers format
  | standard (habsent : Header.Absent "content-type" headers)
    (hnone : ∀ format, ¬ Accepts headers format) : Chosen standard headers standard

theorem accepted?_eq_some_iff {list : String} {format : Format} :
    accepted? list = some format ↔ FirstAccepted list format := by
  simp only [accepted?, List.findSome?_eq_some_iff, FirstAccepted]

theorem accept?_eq_some_iff {headers : List Header} {format : Format} :
    ((Header.find? "accept" headers).bind Header.text?).bind accepted? = some format
      ↔ Accepts headers format := by
  simp only [Option.bind_eq_some_iff, accepted?_eq_some_iff, Header.find?_eq_some_iff, Accepts]
  constructor
  · rintro ⟨list, ⟨value, hfirst, htext⟩, haccepted⟩
    exact ⟨value, list, hfirst, htext, haccepted⟩
  · rintro ⟨value, list, hfirst, htext, haccepted⟩
    exact ⟨list, ⟨value, hfirst, htext⟩, haccepted⟩

def NotText (headers : List Header) : Prop :=
  ∃ value, Header.First "content-type" headers value ∧ Header.text? value = none

def Unsupported (headers : List Header) : Prop :=
  ∃ value text, Header.First "content-type" headers value ∧ Header.text? value = some text
    ∧ Format.ofContentType text = none

theorem ofContentType_notText {value : Bytes} (h : Header.text? value = none) :
    ofContentType value = .error (.invalidRequest "Content-Type is not valid text") := by
  rw [ofContentType, h]

theorem ofContentType_unsupported {value : Bytes} {text : String}
    (h : Header.text? value = some text) (hformat : Format.ofContentType text = none) :
    ofContentType value = .error (.unsupportedMediaType text) := by
  rw [ofContentType, h]
  dsimp only
  rw [hformat]

theorem ofContentType_known {value : Bytes} {text : String} {f : Format}
    (h : Header.text? value = some text) (hformat : Format.ofContentType text = some f) :
    ofContentType value = .ok f := by
  rw [ofContentType, h]
  dsimp only
  rw [hformat]

variable {headers : List Header} (standard : Format)

theorem format_of_first {value : Bytes} (h : Header.First "content-type" headers value) :
    format standard headers = ofContentType value := by
  rw [format, Header.find?_eq_some_iff.mpr h]

theorem format_notText (h : NotText headers) :
    format standard headers = .error (.invalidRequest "Content-Type is not valid text") := by
  obtain ⟨value, hfirst, htext⟩ := h
  rw [format_of_first standard hfirst, ofContentType_notText htext]

theorem format_unsupported (h : Unsupported headers) :
    ∃ text, format standard headers = .error (.unsupportedMediaType text) := by
  obtain ⟨value, text, hfirst, htext, hformat⟩ := h
  exact ⟨text, by rw [format_of_first standard hfirst, ofContentType_unsupported htext hformat]⟩

theorem exists_chosen_of_absent (h : Header.Absent "content-type" headers) :
    ∃ f, Chosen standard headers f ∧ format standard headers = .ok f := by
  rw [format, Header.find?_eq_none_iff.mpr h]
  dsimp only
  cases haccept : ((Header.find? "accept" headers).bind Header.text?).bind accepted? with
  | some f => exact ⟨f, .accepted h (accept?_eq_some_iff.mp haccept), rfl⟩
  | none =>
    refine ⟨standard, .standard h fun f hf => ?_, rfl⟩
    rw [accept?_eq_some_iff.mpr hf] at haccept
    cases haccept

/-- Only a content type keeps a request from having a format. -/
theorem exists_chosen (htext : ¬ NotText headers) (hknown : ¬ Unsupported headers) :
    ∃ f, Chosen standard headers f ∧ format standard headers = .ok f := by
  cases hfind : Header.find? "content-type" headers with
  | none => exact exists_chosen_of_absent standard (Header.find?_eq_none_iff.mp hfind)
  | some value =>
    have hfirst := Header.find?_eq_some_iff.mp hfind
    obtain ⟨text, hvalue⟩ : ∃ text, Header.text? value = some text :=
      Option.ne_none_iff_exists'.mp fun hnone => htext ⟨value, hfirst, hnone⟩
    obtain ⟨f, hf⟩ : ∃ f, Format.ofContentType text = some f :=
      Option.ne_none_iff_exists'.mp fun hnone => hknown ⟨value, text, hfirst, hvalue, hnone⟩
    exact ⟨f, .contentType hfirst hvalue hf,
      (format_of_first standard hfirst).trans (ofContentType_known hvalue hf)⟩

end Negotiation

namespace Server

/-- An error is told with its status, whatever it is: the report on it can be written. -/
theorem status_errorReply (e : RequestError) : (errorReply e).status = e.status := by
  obtain ⟨body, hbody⟩ := Format.json.exists_marshal (⟨e.message, e.status⟩ : ErrorReport)
  rw [errorReply, jsonReply, hbody]
  rfl

theorem answer_exchange {s : Server} {r : Http.Request} {x : Exchange}
    (h : s.reply r = s.exchangeReply x) : ∃ body, Service.reply s.registry x = .ok body
      ∧ s.answer r = ⟨200, [.text "content-type" x.format.contentType,
        .text "access-control-allow-origin" "*"], body⟩ := by
  obtain ⟨body, hbody⟩ := Service.exists_reply s.registry x
  refine ⟨body, hbody, ?_⟩
  rw [answer, h, exchangeReply, hbody]
  rfl

section Resource

variable {r : Http.Request} {segment : List Char} {id : String}
  (hpath : Route.path r.target.toList = Route.resource segment) (hslash : '/' ∉ segment)
  (hid : Route.containerId? segment = some id) (hmethod : r.method = "GET" ∨ r.method = "POST")
include hpath hslash hmethod

theorem reply_resource (s : Server) : s.reply r = s.containerReply segment r := by
  refine reply_container ?_ hmethod
  rw [Route.ofTarget?, hpath, Route.ofPath?_resource hslash]

include hid

theorem answer_refused (s : Server) {e : RequestError}
    (he : Negotiation.format s.defaultFormat r.headers = .error e) :
    (s.answer r).status = e.status
      ∧ ∀ registry, Server.answer ⟨registry, s.defaultFormat⟩ r = s.answer r := by
  have hreply : ∀ registry, Server.reply ⟨registry, s.defaultFormat⟩ r = errorReply e := by
    intro registry
    rw [reply_resource hpath hslash hmethod, containerReply, hid]
    dsimp only
    rw [he]
  constructor
  · rw [answer, hreply s.registry]
    exact status_errorReply e
  · intro registry
    rw [answer, answer, hreply registry, hreply s.registry]

theorem answer_served (s : Server) (hbody : r.method = "POST" → r.body.length ≤ bodyLimit)
    (htext : ¬ Negotiation.NotText r.headers) (hknown : ¬ Negotiation.Unsupported r.headers) :
    ∃ format body, Negotiation.Chosen s.defaultFormat r.headers format
      ∧ (r.method = "GET" → format.marshal (Service.models s.registry id) = .ok body)
      ∧ (r.method = "POST" →
        format.marshal (Service.evaluate s.registry id format r.body) = .ok body)
      ∧ s.answer r = ⟨200, [.text "content-type" format.contentType,
        .text "access-control-allow-origin" "*"], body⟩ := by
  obtain ⟨format, hchosen, hformat⟩ := Negotiation.exists_chosen s.defaultFormat htext hknown
  have hreply := reply_resource hpath hslash hmethod s
  rw [containerReply, hid] at hreply
  dsimp only at hreply
  rw [hformat] at hreply
  dsimp only at hreply
  rcases hmethod with hmethod | hmethod
  · rw [if_pos (by rw [hmethod]; decide)] at hreply
    obtain ⟨body, hmodels, hanswer⟩ := answer_exchange hreply
    refine ⟨format, body, hchosen, fun _ => hmodels, fun hpost => ?_, hanswer⟩
    exact absurd (hmethod.symm.trans hpost) (by decide)
  · rw [if_neg (not_not.mpr hmethod), if_neg (Nat.not_lt.mpr (hbody hmethod))] at hreply
    obtain ⟨body, hevaluation, hanswer⟩ := answer_exchange hreply
    refine ⟨format, body, hchosen, fun hget => ?_, fun _ => hevaluation, hanswer⟩
    exact absurd (hmethod.symm.trans hget) (by decide)

/-- Faults are told in the envelope of an answer with status 200. Only a content type that is no
text or names no format is an error of the request, and then no container matters. -/
theorem answer_container (s : Server) (hbody : r.method = "POST" → r.body.length ≤ bodyLimit) :
    (Negotiation.NotText r.headers → (s.answer r).status = 400
      ∧ ∀ registry, Server.answer ⟨registry, s.defaultFormat⟩ r = s.answer r)
    ∧ (Negotiation.Unsupported r.headers → (s.answer r).status = 415
      ∧ ∀ registry, Server.answer ⟨registry, s.defaultFormat⟩ r = s.answer r)
    ∧ (¬ Negotiation.NotText r.headers → ¬ Negotiation.Unsupported r.headers →
      ∃ format body, Negotiation.Chosen s.defaultFormat r.headers format
        ∧ (r.method = "GET" → format.marshal (Service.models s.registry id) = .ok body)
        ∧ (r.method = "POST" →
          format.marshal (Service.evaluate s.registry id format r.body) = .ok body)
        ∧ s.answer r = ⟨200, [.text "content-type" format.contentType,
          .text "access-control-allow-origin" "*"], body⟩)
    ∧ (s.answer r).status ≠ 500 := by
  have hrefused {e : RequestError} := answer_refused hpath hslash hid hmethod s (e := e)
  have hnotText := fun h => hrefused (Negotiation.format_notText s.defaultFormat h)
  have hunsupported : Negotiation.Unsupported r.headers → (s.answer r).status = 415
      ∧ ∀ registry, Server.answer ⟨registry, s.defaultFormat⟩ r = s.answer r := by
    intro h
    obtain ⟨text, he⟩ := Negotiation.format_unsupported s.defaultFormat h
    exact hrefused he
  have hserved := answer_served hpath hslash hid hmethod s hbody
  refine ⟨hnotText, hunsupported, hserved, ?_⟩
  by_cases htext : Negotiation.NotText r.headers
  · rw [(hnotText htext).1]
    decide
  by_cases hknown : Negotiation.Unsupported r.headers
  · rw [(hunsupported hknown).1]
    decide
  obtain ⟨format, body, -, -, -, hanswer⟩ := hserved htext hknown
  rw [hanswer]
  exact (by decide : 200 ≠ 500)

end Resource

def asked (headers : List Header) : Http.Request :=
  ⟨"POST", "/containers/a%20b/dmn?trace=1", headers, [0x7B]⟩

def accepting : List Header :=
  [.text "Accept" "text/html, application/msgpack"]

theorem answer_container_asked :
    (idle.answer (asked [⟨"Content-Type", [0xFF]⟩])).status = 400
    ∧ (idle.answer (asked [.text "content-type" "text/plain"])).status = 415
    ∧ ∃ format body, Negotiation.Chosen .json accepting format
      ∧ format.marshal (Service.evaluate idle.registry "a b" format [0x7B]) = .ok body
      ∧ (idle.answer (asked accepting)).status = 200
      ∧ (idle.answer (asked accepting)).body = body := by
  have hpath : Route.path "/containers/a%20b/dmn?trace=1".toList
      = Route.resource "a%20b".toList := by decide
  have hid : Route.containerId? "a%20b".toList = some "a b" := by decide
  have hbody : ([0x7B] : Bytes).length ≤ bodyLimit := by decide
  have h := fun headers => answer_container (r := asked headers) hpath (by decide) hid (.inr rfl)
    idle fun _ => hbody
  have habsent : Header.Absent "content-type" accepting :=
    Header.find?_eq_none_iff.mp (by decide)
  obtain ⟨format, body, hchosen, -, hevaluation, hanswer⟩ := (h accepting).2.2.1
    (fun ⟨_, hfirst, _⟩ => habsent.not_first hfirst)
    (fun ⟨_, _, hfirst, _⟩ => habsent.not_first hfirst)
  refine ⟨((h _).1 ?_).1, ((h _).2.1 ?_).1, format, body, hchosen, hevaluation rfl, ?_, ?_⟩
  · exact ⟨_, ⟨[], _, [], rfl, by decide, rfl, nofun⟩, by decide⟩
  · exact ⟨_, "text/plain", ⟨[], _, [], rfl, by decide, rfl, nofun⟩, by decide, by decide⟩
  · rw [hanswer]
  · rw [hanswer]

end Server

end DecisionService
