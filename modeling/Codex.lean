import Codex.Result
import Codex.Text
import Codex.ApplyPatch.Hunk
import Codex.ApplyPatch.StreamingParser
import Codex.ApplyPatch.Parser
import Codex.ApplyPatch.Lines
import Codex.ApplyPatch.Print
import Codex.ApplyPatch.RoundTrip
import Codex.ApplyPatch.Sections
import Codex.ApplyPatch.Agree
import Codex.ApplyPatch.SeekSequence
import Codex.ApplyPatch.FileUpdate
import Codex.Program
import Codex.FileSystem
import Codex.ApplyPatch.Apply
import Codex.ApplyPatch.Delta
import Codex.PathUri.Basic
import Codex.PathUri.NativePath
import Codex.PathUri.ConfigPath
import Codex.PathUri.Laws
import Codex.Plan
import Codex.ApplyPatch.Verify
import Codex.ApplyPatch.Approved
import Codex.HashMap
import Codex.TurnDiff.Tracker
import Codex.TurnDiff.Pairs
import Codex.TurnDiff.Follows
import Codex.MaxByKey
import Codex.Permissions.Policy
import Codex.Permissions.Access
import Codex.Permissions.Metadata
import Codex.Permissions.ReadDeny
import Codex.Permissions.FullDisk
import Codex.Permissions.Materialize
import Codex.Permissions.Target
import Codex.Permissions.Additional
import Codex.Permissions.Validator
import Codex.AbsolutePath
import Codex.ExecPolicy.Policy
import Codex.ExecPolicy.Merge
import Codex.ExecPolicy.Amend
import Codex.ExecPolicy.Approval
import Codex.ExecPolicy.Chaining
import Codex.Rooted
import Codex.Tree
import Codex.PathUri.Local
import Codex.Permissions.LocalAccess
import Codex.Permissions.WritableRoots
import Codex.Permissions.LocalAliases
import Codex.Sandbox.Seatbelt
import Codex.Sandbox.Equivalent
import Codex.StdinWrites
import Codex.Framing
import Codex.Run
import Codex.Relay.MessageFraming
import Codex.Relay.OrderedCiphertext
import Codex.Relay.Writer
import Codex.Relay.Multiplex
import Codex.Relay.Authorised
import Codex.History.Items
import Codex.History.Normalize
import Codex.History.Prompt
import Codex.History.RetainedContext
import Codex.History.Evidence
import Codex.Eviction
import Codex.History.Delayed
import Codex.History.Rollback
import Codex.History.Edits
import Codex.Wildcard
import Codex.IpAddr
import Codex.Network.DomainMatcher
import Codex.Network.AuthorizationPath
import Codex.Network.Policy
import Codex.Network.Constraints
import Codex.Network.Subset
import Codex.Network.HostPolicy
import Codex.Network.Normalized
import Codex.Network.Spellings
import Codex.RemoteControl.Segments
import Codex.RemoteControl.Reassembly
import Codex.RemoteControl.Outbound
import Codex.RemoteControl.Writer
import Codex.RemoteControl.Numbering
import Codex.HashMap.Laws
import Codex.RemoteControl.Tracker
import Codex.RemoteControl.Reader
import Codex.RemoteControl.Successor
import Codex.RemoteControl.Capacity
import Codex.RemoteControl.Transparency
import Codex.Undo
import Codex.History.Users
import Codex.Rollout.Reconstruct
import Codex.Rollout.Turns
import Codex.Rollout.Display
import Codex.Rollout.Segments
import Codex.Rollout.Bounded
import Codex.Entries
import Codex.Config.Toml
import Codex.Config.Merge
import Codex.Config.Layers
import Codex.Agents.Registry
import Codex.Agents.Count
import Codex.Positions
import Codex.Board.Store
import Codex.Board.Indexes
import Codex.Board.Calls
import Codex.Board.Polling
import Codex.Config.Profiles
import Codex.Config.Inherited
import Codex.Base64
import Codex.Credentials.Registry
import Codex.Credentials.Selected
import Codex.ThreadHistory.Paginated
import Codex.ThreadHistory.Agrees
import Codex.ApplyPatch.Written
import Codex.ApplyPatch.Replacements
import Codex.ApplyPatch.Survives
import Codex.Guardian.RootConversation
import Codex.HeadTailBuffer
import Codex.Guardian.TranscriptWindow
import Codex.FileWatcher
import Codex.CriticalPath
import Codex.DangerousCommand
