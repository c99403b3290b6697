import Mathlib
import DecisionService.Proofs.Client.Formats
import DecisionService.Proofs.Wire.Textual
/-!
# Lists of models through a client

A client that is connected straight to a service sees the models of a container as they are
deployed: the response holds texts only, and both formats give texts back as they were.
-/
namespace DecisionService

open Wire

/-- What a service tells of the models of a container: all of them in the order of deployment, with
all their names, unless no session can be opened. -/
def Service.listing (r : Registry) (id : String) : Response ModelList :=
  match r.get? id with
  | some (.deployed _ models) =>
    .success s!"OK models successfully retrieved from container '{id}'"
      ⟨models.map fun m => ⟨m.modelNamespace, m.name, m.id,
        m.decisions.map fun d => ⟨d.id, d.name⟩⟩⟩
  | some (.broken _ text) =>
    .failure (s!"Error retrieving models from container '{id}': " ++ s!"Engine error: {text}")
  | none =>
    .failure (s!"Error retrieving models from container '{id}': "
      ++ s!"Container '{id}' is not deployed")

theorem Service.models_eq (r : Registry) (id : String) : models r id = listing r id := by
  rw [models, Registry.newSession, Registry.find, listing]
  cases r.get? id with
  | none => rfl
  | some container => cases container <;> rfl

namespace Client

/-- The response that the service computes is the response that the client returns, with every
text in it and every list as long as it was. -/
theorem models_exact (config : ClientConfig) (format : Format) (r : Registry) (id : String)
    (hf : format = .msgpack → MessagePack.Fits (Service.models r id)) :
    ((connected config format r).models id ()).outcome = .ok (Service.models r id)
    ∧ Service.models r id = Service.listing r id := by
  refine ⟨?_, Service.models_eq r id⟩
  have hdepth : (Payload.schema (Response ModelList)).depth ≤ format.levels := by
    cases format <;> decide
  obtain ⟨bytes, hm, hu⟩ := format.unmarshal_marshal_textual rfl hdepth _ hf
  change ((format.marshal (Service.models r id)).mapError _).bind (readModels format) = _
  rw [hm]
  change (format.unmarshal bytes).mapError _ = _
  rw [hu]
  rfl

def oddContainer : Container :=
  .deployed "\"" [⟨"urn:\"1\"", "a\\b\x01\n", "_𝄞", [⟨"é\x7F", "/\t", [], fun _ => .ok .null⟩,
    ⟨"é\x7F", "", [], fun _ => .ok .null⟩]⟩, ⟨"", "𝄞", "", []⟩]

def oddListing : Response ModelList :=
  .success "OK models successfully retrieved from container '\"'"
    ⟨[⟨"urn:\"1\"", "a\\b\x01\n", "_𝄞", [⟨"é\x7F", "/\t"⟩, ⟨"é\x7F", ""⟩]⟩, ⟨"", "𝄞", "", []⟩]⟩

theorem models_exact_odd :
    ((connected .standard .json (.register oddContainer .empty)).models "\"" ()).outcome
      = .ok oddListing
    ∧ ((connected .standard .msgpack (.register oddContainer .empty)).models "\"" ()).outcome
      = .ok oddListing := by
  have hlisting : Service.listing (.register oddContainer .empty) "\"" = oddListing := rfl
  have hfits : MessagePack.Fits (Service.models (.register oddContainer .empty) "\"") := by
    decide +kernel
  obtain ⟨hjson, hmodels⟩ :=
    models_exact .standard .json (.register oddContainer .empty) "\"" nofun
  obtain ⟨hmsgpack, -⟩ :=
    models_exact .standard .msgpack (.register oddContainer .empty) "\"" fun _ => hfits
  rw [hmodels, hlisting] at hjson hmsgpack
  exact ⟨hjson, hmsgpack⟩

end Client

end DecisionService
