import AsterDrive.Archive.RangeReader
import AsterDrive.Auth.AttemptBudget
import AsterDrive.Auth.RefreshChain
import AsterDrive.Auth.SingleUse
import AsterDrive.Cli.DatabaseCopy
import AsterDrive.Files.BatchSelection
import AsterDrive.Files.FolderAudit
import AsterDrive.Files.FolderForest
import AsterDrive.Files.TrashRoundTrip
import AsterDrive.Locks.Expiry
import AsterDrive.Locks.Projection
import AsterDrive.Migrations.HistoryRoundTrip
import AsterDrive.Placement.SnapshotConvergence
import AsterDrive.Remote.Signatures
import AsterDrive.Remote.TunnelSends
import AsterDrive.Sharing.ActiveShares
import AsterDrive.Sharing.Downloads
import AsterDrive.Sharing.StreamSession
import AsterDrive.Storage.ForcedPurgeResume
import AsterDrive.Storage.MigrationContent
import AsterDrive.Storage.MigrationPlan
import AsterDrive.Tasks.LaneQuota
import AsterDrive.Tasks.Scratch
import AsterDrive.Tunnel.FrameCodec
import AsterDrive.Tunnel.LaneDiscipline
import AsterDrive.Tunnel.LaneLeases
import AsterDrive.Tunnel.Lifecycle
import AsterDrive.Tunnel.Ownership
import AsterDrive.Tunnel.Registrations
import AsterDrive.Tunnel.Targets
import AsterDrive.Upload.BrowserChain
import AsterDrive.Upload.CapacityAdmission
import AsterDrive.Upload.MultipartCompletion
import AsterDrive.Upload.OffsetStaging
import AsterDrive.Upload.RelayMultipart
import AsterDrive.Upload.SafeCleanup
import AsterDrive.Webdav.Agreement
import AsterDrive.Webdav.CachedPaths
import AsterDrive.Webdav.DirectoryPages
import AsterDrive.Webdav.LockDiscovery
import AsterDrive.Workspace.IdempotentCreate
import AsterDrive.Workspace.LastOwner
import AsterDrive.Workspace.OptimisticWrites
import AsterDrive.Workspace.RefRepair
import AsterDrive.Workspace.TeamArchiveSafety
import AsterDrive.Workspace.VersionRestore
