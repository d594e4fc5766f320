import ProgramStream.Main
import ProgramStream.Proofs.Words
import ProgramStream.Storage.Tree
import ProgramStream.Proofs.Frame
import ProgramStream.Proofs.Session.Step
import ProgramStream.Proofs.Session.Pieces
import ProgramStream.Proofs.Session.Calls
import ProgramStream.Proofs.Session.Partition
import ProgramStream.Proofs.Session.Numbering
import ProgramStream.Proofs.Session.Maps
import ProgramStream.Proofs.Cursor
import ProgramStream.Proofs.Clock
import ProgramStream.Proofs.Crc
import ProgramStream.Proofs.Crc.Burst
import ProgramStream.Proofs.PackHeader
import ProgramStream.Proofs.Packet
import ProgramStream.Proofs.Record
import ProgramStream.Proofs.Session.Dropped
import ProgramStream.Proofs.Session.Muxed
import ProgramStream.Proofs.Section.Basic
import ProgramStream.Proofs.Section.Association
import ProgramStream.Proofs.Section.ProgramMap
import ProgramStream.Proofs.Section.Series
import ProgramStream.Proofs.Packet.Contents
import ProgramStream.Proofs.Incremental
import ProgramStream.Proofs.Session.Refusal
import ProgramStream.Proofs.Session.Limit
import ProgramStream.Proofs.Session.UnitLength
import ProgramStream.Proofs.Session.Labels
import ProgramStream.Proofs.Dump.Run
import ProgramStream.Proofs.Cursor.Position
import ProgramStream.Proofs.Session.Progress
import ProgramStream.Proofs.Packet.TooShort
import ProgramStream.Proofs.StreamMap.Extent
import ProgramStream.Proofs.Section.Checked
import ProgramStream.Proofs.Section.Retry
import ProgramStream.Proofs.Section.Grammar
import ProgramStream.Proofs.Section.Oversized
import ProgramStream.Proofs.Roles
import ProgramStream.Proofs.Roles.Headers
import ProgramStream.Proofs.Packet.Roles
import ProgramStream.Proofs.SystemHeader.Refusal
import ProgramStream.Proofs.PackHeader.Refusal
import ProgramStream.Proofs.Clock.Coding
import ProgramStream.Proofs.Crc.Remainder
import ProgramStream.Proofs.Session.Kinds
import ProgramStream.Proofs.Exchange
import ProgramStream.Proofs.Strict
import ProgramStream.Proofs.Strict.Implements
import ProgramStream.Proofs.Strict.Headers
import ProgramStream.Proofs.Strict.StreamMap
import ProgramStream.Proofs.Strict.Packet
import ProgramStream.Proofs.Strict.Section
import ProgramStream.Proofs.Strict.Calls
import ProgramStream.Proofs.Strict.Boundary
import ProgramStream.Proofs.Packet.Width
import ProgramStream.Proofs.Dump.Diagnostic
