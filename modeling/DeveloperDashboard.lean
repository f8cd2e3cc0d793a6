import DeveloperDashboard.GoRoutine.WaitAll
import DeveloperDashboard.GoRoutine.SharedImportShape
import DeveloperDashboard.GoRoutine.SharedLock
import DeveloperDashboard.Collector.ScheduledRuns
import DeveloperDashboard.Collector.ActiveRuns
import DeveloperDashboard.Collector.PublishedResult
import DeveloperDashboard.Env.InheritedEnv
import DeveloperDashboard.Page.TransientToken
import DeveloperDashboard.Page.SavePage
import DeveloperDashboard.Page.InstructionRoundTrip
import DeveloperDashboard.Page.StashRoundTrip
import DeveloperDashboard.Collector.CronSlots
import DeveloperDashboard.Collector.StopSignals
import DeveloperDashboard.Indicator.SyncHistory
import DeveloperDashboard.Skills.AliasRoundTrip
import DeveloperDashboard.Skills.NavSnapshot
import DeveloperDashboard.Skills.InstallSafety
import DeveloperDashboard.Commands.HookParity
import DeveloperDashboard.Commands.ExitReports
import DeveloperDashboard.Housekeeping.Foresight
import DeveloperDashboard.Docker.ToggledServices
import DeveloperDashboard.Web.ApiHandlers
import DeveloperDashboard.Web.FrontDoors
import DeveloperDashboard.Web.HelperAccess
import DeveloperDashboard.Indicator.TimelyCalls
import DeveloperDashboard.Workspace.OwnSession
import DeveloperDashboard.Files.KeptContent
import DeveloperDashboard.Skills.SkillIsolation
import DeveloperDashboard.Helpers.ConvergingHelpers
import DeveloperDashboard.Page.NavAccounts
import DeveloperDashboard.GoRoutine.ArrayGrowth
import DeveloperDashboard.GoRoutine.CommandLine
import DeveloperDashboard.Html.EscapePaths
import DeveloperDashboard.GoRoutine.SharedIntegers
import DeveloperDashboard.Page.StashVisibility
import DeveloperDashboard.Collector.CronMeaning
import DeveloperDashboard.Indicator.IndicatorOrder
import DeveloperDashboard.Commands.HookResults
import DeveloperDashboard.Skills.ResolvedCommands
import DeveloperDashboard.Config.IndicatorProjection
import DeveloperDashboard.Env.IncludesInComments
import DeveloperDashboard.Web.InlineScript
import DeveloperDashboard.Env.SingleExpansion
import DeveloperDashboard.Web.ProxyStreams
import DeveloperDashboard.Docker.ComposeYaml
import DeveloperDashboard.Page.TemplateCache
import DeveloperDashboard.Docker.ComposeArguments
import DeveloperDashboard.Skills.ForgottenSkills
import DeveloperDashboard.Web.EditPage
import DeveloperDashboard.Indicator.StatusLines
import DeveloperDashboard.Files.CachedSources
import DeveloperDashboard.Session.PasswordDerivation
import DeveloperDashboard.Workspace.QuotedWords
import DeveloperDashboard.Collector.UpdateRun
import DeveloperDashboard.Collector.WatchdogRestarts
import DeveloperDashboard.GoRoutine.ChannelProgress
import DeveloperDashboard.Web.BuiltQuery
