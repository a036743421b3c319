import AgenticOctopus.Foundation.Json

/-!
# Agent registry

Manifests as the loader leaves them: validated, keyed by the agent's directory name, and
fixed for the life of the process. A manifest's `path` is only used while loading.
-/
namespace AgenticOctopus.Spine
open Foundation

structure OutputSpec where
  dir : Text := ↑"data"

structure AgentManifest where
  name : Text
  description : Text := ↑""
  tools : List Text := []
  executor : Text := ↑"claude-sdk"
  model : Text := ↑"default"
  maxTurns : Int := 30
  requiresApproval : Bool := false
  schedule : Option Text := none
  params : Dict Text Json := []
  output : OutputSpec := {}

structure LoadedAgent where
  manifest : AgentManifest
  prompt : Text

abbrev Registry := Dict Text LoadedAgent

end AgenticOctopus.Spine
