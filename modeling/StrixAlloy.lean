import StrixAlloy.TaskStore.Questions
import StrixAlloy.TaskStore.Pending
import StrixAlloy.TaskStore.Fence
import StrixAlloy.TaskStore.Replay
import StrixAlloy.TaskStore.Receipts
import StrixAlloy.TaskStore.Admission
import StrixAlloy.Gateway.Accounting
import StrixAlloy.Gateway.MemoryAdmission
import StrixAlloy.Admission.Safety
import StrixAlloy.FiniteLedger.Crash
import StrixAlloy.HostRegister.Safety
import StrixAlloy.LocalText.Terminal
import StrixAlloy.SdkSessions.Lifecycle
import StrixAlloy.Handoff.Commit
import StrixAlloy.Omni.Output
import StrixAlloy.ContextRead.Owner
import StrixAlloy.PresentationHistory.History
import StrixAlloy.Dflash.Captures
import StrixAlloy.Pld.Selector
import StrixAlloy.Pld.Chain
import StrixAlloy.Pld.Append
import StrixAlloy.Coordinator.Workflow
import StrixAlloy.EmbeddingCache.Transparent
import StrixAlloy.PagePhase.Safety
import StrixAlloy.DeferredZ.Safety
import StrixAlloy.Retention.Finish
import StrixAlloy.Playback.Gates
import StrixAlloy.ConsoleTrace.Events
import StrixAlloy.TranscriptGroups.Ledger
import StrixAlloy.OutputArbiter.Runs
import StrixAlloy.Endpoint.Gate
import StrixAlloy.MobileRelay.Publication
import StrixAlloy.Lease.Supervisor
import StrixAlloy.Denoise.Denoiser
import StrixAlloy.TaskStore.Executor
import StrixAlloy.ManagedTurn.Bootstrap
import StrixAlloy.CallerContext.History
import StrixAlloy.OrderTasks.Amends
import StrixAlloy.PersonaRoute.Restored
import StrixAlloy.VoiceResource.Body
import StrixAlloy.VoicePreview.Safety
import StrixAlloy.Voice.Manifest
import StrixAlloy.MobileRelay.Closing
import StrixAlloy.Pld.Longmatch
import StrixAlloy.FiniteTransport.Capture
import StrixAlloy.Gguf.Inspect
import StrixAlloy.TaskStore.History
