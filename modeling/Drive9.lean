import Drive9.Backend.DeleteDir.Orphans
import Drive9.Backend.Files.RefCount
import Drive9.Backend.Namespace.Canonical
import Drive9.Backend.Namespace.Linked
import Drive9.Backend.Namespace.Twins
import Drive9.Backend.Quota.AtMostOnce
import Drive9.Backend.Quota.Initiate
import Drive9.Backend.Upload.OneOutcome
import Drive9.Backend.Write.Deleted
import Drive9.Backend.Write.Ledger
import Drive9.Backend.Write.Revision
import Drive9.Backend.Write.Serial
import Drive9.Client.Requests.Lemmas
import Drive9.Client.Resume
import Drive9.Client.SliceStream
import Drive9.Client.Watch.Delivery
import Drive9.Datastore.Tasks.Attempts
import Drive9.Fuse.Commit.CommitOnce
import Drive9.Fuse.Commit.Durability
import Drive9.Fuse.Commit.NoLostUpdate
import Drive9.Fuse.Dispatch.Index
import Drive9.Fuse.Dispatch.Wait
import Drive9.Fuse.Handle.Lemmas
import Drive9.Fuse.Journal.Torn
import Drive9.Fuse.Shadow.Pinned
import Drive9.Fuse.Stream.Lemmas
import Drive9.Fuse.WriteBack
import Drive9.Fuse.WriteBuffer.DirectPut
import Drive9.Journal.Interleaved
import Drive9.Journal.Tamper
import Drive9.Server.Fork.Lifecycle
import Drive9.Server.ObjectGC.Safety
import Drive9.Server.Sources.Touched
import Drive9.Tenant.Pool.Drain
import Drive9.Vault.Tokens.Lemmas
