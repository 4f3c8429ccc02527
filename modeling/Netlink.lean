import Netlink.Attribute.Descent
import Netlink.Record.Position
import Netlink.Settings
import Netlink.Proofs.Bytes
import Netlink.Proofs.Draft.Parts
import Netlink.Proofs.Attribute.Appends
import Netlink.Proofs.Stream
import Netlink.Proofs.Draft.Edit
import Netlink.Proofs.Attribute.Forest
import Netlink.Proofs.Draft.Batch
import Netlink.Proofs.Attribute.Writing
import Netlink.Proofs.Dispatcher.Course
import Netlink.Proofs.Dispatcher.Run
import Netlink.Proofs.Stream.Iteration
import Netlink.Proofs.Stream.Cursor
import Netlink.Proofs.Framing
import Netlink.Proofs.Attribute.Grammar
import Netlink.Proofs.Attribute.Strict
import Netlink.Proofs.Stream.Cut
import Netlink.Proofs.Dispatcher.Cut
import Netlink.Proofs.Text
import Netlink.Proofs.Attribute.Table
import Netlink.Proofs.Report.Answer
import Netlink.Proofs.Attribute.Sites
import Netlink.Proofs.Dispatcher.Exchange
import Netlink.Proofs.Attribute.Parse
import Netlink.Proofs.Draft.Refusal
import Netlink.Proofs.Draft.Storage
import Netlink.Proofs.Attribute.Closing
import Netlink.Proofs.Attribute.Reencode
import Netlink.Proofs.Dispatcher.Failure
import Netlink.Proofs.Draft.Change
import Netlink.Proofs.Attribute.Behind
import Netlink.Proofs.Draft.Rollback
import Netlink.Proofs.Attribute.Representable
import Netlink.Proofs.Report.Room
import Netlink.Proofs.Attribute.Validation
import Netlink.Proofs.Attribute.Lookup
import Netlink.Proofs.Attribute.Text
import Netlink.Proofs.Draft.Effect
import Netlink.Proofs.Padding
import Netlink.Proofs.Dispatcher.Registration
import Netlink.Proofs.Dispatcher.Trace
import Netlink.Proofs.Report.Echo
import Netlink.Proofs.Alignment
import Netlink.Proofs.Stream.Position
import Netlink.Proofs.Attribute.Number
import Netlink.Proofs.Report.Codec
