import FlareIm.AckStore.Theorems
import FlareIm.ClientPolicy.Theorems
import FlareIm.CompensationQueue.Theorems
import FlareIm.ConnectionUsage.Theorems
import FlareIm.ConversationDelivery.Theorems
import FlareIm.ConversationList.Listing
import FlareIm.ConversationList.Theorems
import FlareIm.ConversationSearch.Theorems
import FlareIm.ConversationSubscription.Theorems
import FlareIm.ConversationSync.Tombstones
import FlareIm.ConversationSync.Windows
import FlareIm.CursorMap
import FlareIm.DirectParts.Theorems
import FlareIm.DirectUpload.Theorems
import FlareIm.EventApplication.Conflicts
import FlareIm.EventApplication.Holes
import FlareIm.EventApplication.RowFormat
import FlareIm.EventRedelivery.Theorems
import FlareIm.ExecutionBuffer.Theorems
import FlareIm.GatewaySweep.Theorems
import FlareIm.HistoryPurge.Theorems
import FlareIm.HookCircuit.Theorems
import FlareIm.IndexMembers.Theorems
import FlareIm.JoinFloor.Theorems
import FlareIm.KickCommands.Theorems
import FlareIm.MediaDedup.Theorems
import FlareIm.MediaReferences.Theorems
import FlareIm.MemberListing.Theorems
import FlareIm.MembershipCache.Theorems
import FlareIm.MessageArchive.InOrder
import FlareIm.MessageIngest.KeyCollisions
import FlareIm.MessageIngest.LateResend
import FlareIm.MessagePersistence.Appends
import FlareIm.MessagePersistence.Usage
import FlareIm.MessageReaders.Theorems
import FlareIm.MultipartUpload.Theorems
import FlareIm.OnlinePush.Theorems
import FlareIm.OperationStore.Reactions
import FlareIm.OperationStore.Targets
import FlareIm.PingCoalescing.Theorems
import FlareIm.PluginCard.Theorems
import FlareIm.PluginState.Theorems
import FlareIm.ReadReceipt.Theorems
import FlareIm.ReaderCache.Theorems
import FlareIm.SendIdentity.Theorems
import FlareIm.SendRateLimit.Theorems
import FlareIm.SequenceFloor.Calls
import FlareIm.SequenceFloor.Theorems
import FlareIm.SequenceLease.LeaseText
import FlareIm.SequenceLease.Order
import FlareIm.SessionRegistry.Admission
import FlareIm.SessionRegistry.Theorems
import FlareIm.SnapshotPaging.Theorems
import FlareIm.SyncCompensation.Theorems
import FlareIm.SyncCursor.Isolation
import FlareIm.TargetedTasks.Theorems
import FlareIm.TenantHooks.Theorems
import FlareIm.UnreadCount.Theorems
import FlareIm.UsageReporter.Theorems
import FlareIm.UserSettings.Theorems
import FlareIm.WalReplay.Theorems
