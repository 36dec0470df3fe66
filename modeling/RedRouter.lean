import RedRouter.Compression.AdapterRoundTrip
import RedRouter.Utils.ProtobufRecords
import RedRouter.Request.ToolCallRepair
import RedRouter.Request.ToolAnswers
import RedRouter.Admission.Bypass
import RedRouter.Admission.IdleProgress
import RedRouter.Admission.WorkConservation
import RedRouter.Admission.LimitLaw
import RedRouter.Shared.FailureCounts
import RedRouter.Shared.ShuffleDeck
import RedRouter.Shared.BackoffEscalation
import RedRouter.Response.ThinkTagAgreement
import RedRouter.Response.MessagePreserved
import RedRouter.Response.ItemLifecycle
import RedRouter.Response.CallsDelivered
import RedRouter.Response.GeminiStream
import RedRouter.Response.DirectiveStripping
import RedRouter.Response.OutputPreserved
import RedRouter.Authz.RouteGuard
import RedRouter.Network.HostSpellings
import RedRouter.Network.IpFilter
import RedRouter.Middleware.LaneTurns
import RedRouter.Middleware.ChatBodyAdmission
import RedRouter.Middleware.ChatRequestAdmission
import RedRouter.Compression.CollapseRepeated
import RedRouter.Compression.DedupReferences
import RedRouter.Compression.PreservationRoundTrip
import RedRouter.Compression.CcrAccounting
import RedRouter.Compression.CcrDeletion
import RedRouter.Compression.LiveZonePrefix
import RedRouter.Combo.InflightCounting
import RedRouter.Combo.QuotaShareOrder
import RedRouter.Services.RateLimitFifo
import RedRouter.Services.SlidingWindowAdmission
import RedRouter.Services.AccountWorkConservation
import RedRouter.Quota.FairShare
import RedRouter.Services.Deduplicate
import RedRouter.Shared.RateLimiter
import RedRouter.Quota.QuotaStores
import RedRouter.Quota.BucketMemory
import RedRouter.Quota.ScheduleWindows
import RedRouter.Utils.SustainedPressure
import RedRouter.Combo.ComboReferences
import RedRouter.Combo.CompatibilityFilter
import RedRouter.Services.PresentsOnce
import RedRouter.Services.CasGuard
import RedRouter.Services.StreamAttempts
import RedRouter.Services.ContinuationDecision
import RedRouter.Services.ApiKeyRotator
import RedRouter.Services.WorkflowFsm
import RedRouter.Admission.RequestCost
import RedRouter.Request.ThinkingBudget
