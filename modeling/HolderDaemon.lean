import HolderDaemon.EventSessions
import HolderDaemon.MilestoneEdits
import HolderDaemon.RunAgreement
import HolderDaemon.RunnerAgreement
import HolderDaemon.AiRecovery
import HolderDaemon.NudgeUniqueness
import HolderDaemon.ForgottenProjects
import HolderDaemon.SerialExecutor
import HolderDaemon.ProbeTasks
import HolderDaemon.SseStream
import HolderDaemon.RunEventStore
import HolderDaemon.ThreadRequests
import HolderDaemon.DeviceRequests
import HolderDaemon.ObjectPatches
import HolderDaemon.ListenerRuns
import HolderDaemon.LocalAnswers
import HolderDaemon.NudgeDismissals
import HolderDaemon.DeviceRestore
import HolderDaemon.RunRetention
import HolderDaemon.RateLimit
import HolderDaemon.OAuthAttempts
import HolderDaemon.StaticRoutes
import HolderDaemon.CloudFallback
import HolderDaemon.RunnerAddress
import HolderDaemon.PullAdmission
import HolderDaemon.QueryValues
import HolderDaemon.ThreadStatePaths
import HolderDaemon.CredentialChanges
import HolderDaemon.LocationBindings
import HolderDaemon.LinkAgreement
import HolderDaemon.MessageCapture
import HolderDaemon.Utf8Cuts
import HolderDaemon.ThreadCompaction
import HolderDaemon.PinnedFacts
import HolderDaemon.RollingSummary
import HolderDaemon.NudgeTitles
import HolderDaemon.TitleTexts
import HolderDaemon.QueryFields
import HolderDaemon.ThreadTitles
import HolderDaemon.CompactionTexts
import HolderDaemon.CompactionReports
import HolderDaemon.CardIds
import HolderDaemon.ModelRefs
import HolderDaemon.PercentCodecs
import HolderDaemon.DriveQuery
import HolderDaemon.CloudCooldown
import HolderDaemon.S3Download
import HolderDaemon.Delimiters
import HolderDaemon.DriveUpload
import HolderDaemon.Stages
import HolderDaemon.Civil
import HolderDaemon.CardPatches
import HolderDaemon.ProjectPatches
import HolderDaemon.MilestoneDateTime
import HolderDaemon.CursorGrammar
import HolderDaemon.EventStream
import HolderDaemon.SseFrames
import HolderDaemon.CanonicalSort
import HolderDaemon.CasteRecommendations
import HolderDaemon.Groups
import HolderDaemon.ResourceReferences
import HolderDaemon.CloudCandidates
import HolderDaemon.SyncRedaction
import HolderDaemon.FileTree
import HolderDaemon.Downloads
import HolderDaemon.RequestHead
import HolderDaemon.S3SigV4
import HolderDaemon.S3Requests
import HolderDaemon.Linearization
import HolderDaemon.ExecutorCalls
import HolderDaemon.ExecutorGitOps
import HolderDaemon.Publication
import HolderDaemon.ServerInfoFile
import HolderDaemon.PullWatch
import HolderDaemon.ImportJobs
import HolderDaemon.ObjectStore
import HolderDaemon.Exchanges
import HolderDaemon.DriveStore
import HolderDaemon.S3Store
import HolderDaemon.Monitored
import HolderDaemon.SyncWorker
import HolderDaemon.CalendarQueries
import HolderDaemon.CardContext
import HolderDaemon.Ancestry
