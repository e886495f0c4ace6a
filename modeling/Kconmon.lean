import Kconmon.Console.Fingerprints
import Kconmon.Controller.ExternalDelivery
import Kconmon.Controller.BroadcastConverges
import Kconmon.Controller.Leadership
import Kconmon.Console.TokenSweeps
import Kconmon.Console.SessionStamps
import Kconmon.Console.SessionRecords
import Kconmon.Console.LiveResume
import Kconmon.Console.RuleOwnership
import Kconmon.Console.QuarantineRuns
import Kconmon.Console.AlertEdges
import Kconmon.Meshplan.Chords
import Kconmon.Controller.PlanInForce
import Kconmon.Agent.Rejoin
import Kconmon.Console.RoleReferences
import Kconmon.Console.BaselineReplay
import Kconmon.Console.RunTally
import Kconmon.Checker.PmtuVerdicts
import Kconmon.Console.ClientAddress
import Kconmon.Console.CadencePreview
import Kconmon.Console.ReapSafety
import Kconmon.Console.ScheduleRuns
import Kconmon.Console.ShedDefinitions
import Kconmon.Console.RunWalk
import Kconmon.Console.ResultRing
import Kconmon.Console.ZonePairCover
import Kconmon.Console.PathIdentity
import Kconmon.Console.Planes
import Kconmon.Console.AddressInclusion
import Kconmon.Agent.ExternalSeries
import Kconmon.Checker.ExternalTargets
import Kconmon.Agent.EchoLimit
import Kconmon.Agent.ProbeSizes
import Kconmon.Console.KvSweep
import Kconmon.Console.LiveRing
import Kconmon.Console.LabelSelector
import Kconmon.Console.AlertNames
import Kconmon.Console.ConnLimits
import Kconmon.Console.JsonbStorable
import Kconmon.Console.LiveDedupe
import Kconmon.Console.PromDuration
