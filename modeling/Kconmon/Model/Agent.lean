import Mathlib.Data.String.Basic

/-!
# Agents

What the controller keeps about an agent. Times are nanoseconds since the epoch.
-/
namespace Kconmon.Model

/-- A label map. Its order is the order in which it was decoded and means nothing. -/
abbrev Labels := List (String × String)

/-- Marks an agent that runs outside any pod. -/
def labelExternal : String := "kconmon-ng.io/external"

structure AgentInfo where
  id : String
  nodeName : String
  podName : String := ""
  podIP : String := ""
  zone : String
  labels : Labels := []
  capabilities : List String := []
  httpPort : Int := 0
  udpPort : Int := 0
  metricsPort : Int := 0
  joinedAt : Int := 0
  lastSeen : Int := 0
  deriving DecidableEq, Inhabited

def Labels.external (labels : Labels) : Bool := labels.lookup labelExternal == some "true"

def AgentInfo.isExternal (a : AgentInfo) : Bool := a.labels.external

end Kconmon.Model
